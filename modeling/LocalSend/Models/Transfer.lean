import LocalSend.Qt.Json
import Mathlib.Data.List.GetD

/-!
# The transfer in flight

`TransferModel`: the rows and the figures over them. What is only shown (the speed readout, the
change signals of the figures) is left out; the span of rows that are waiting for a repaint and the
timer that flushes it are kept. The totals are `qint64`s and wrap around.

A row number the model is called with may be out of range: the setters then do nothing.
-/

set_option autoImplicit false

namespace LocalSend

inductive TransferState | idle | pending | requesting | active | finished | failed | cancelled
  deriving DecidableEq

inductive Direction | noDirection | sending | receiving
  deriving DecidableEq

inductive FileStatus | waiting | transferring | done | failed | skipped
  deriving DecidableEq

structure FileEntry where
  id : QString := []
  fileName : QString := []
  size : Int := 0
  fileType : QString := []
  sha256 : QString := []
  token : QString := []
  localPath : QString := []
  transferred : Int := 0
  status : FileStatus := .waiting
  error : QString := []
  deriving DecidableEq, Inhabited

structure TransferModel where
  files : List FileEntry := []
  state : TransferState := .idle
  direction : Direction := .noDirection
  peerAlias : QString := []
  peerAddress : QString := []
  peerDeviceType : QString := []
  peerFingerprint : QString := []
  destination : QString := []
  errorText : QString := []
  totalBytes : Int := 0
  transferredBytes : Int := 0
  dirty : Option (Nat × Nat) := none
  flushTimer : Bool := false
  deriving DecidableEq

/-- The value of a `qint64` computation. -/
def wrap64 (n : Int) : Int := n.bmod (2 ^ 64)

def TransferState.name : TransferState → QString
  | .pending => str "pending"
  | .requesting => str "requesting"
  | .active => str "active"
  | .finished => str "finished"
  | .failed => str "failed"
  | .cancelled => str "cancelled"
  | .idle => str "idle"

namespace TransferModel

def stateName (t : TransferModel) : QString := t.state.name

def active (t : TransferModel) : Bool :=
  t.state = .active || t.state = .pending || t.state = .requesting

def fileCount (t : TransferModel) : Nat := t.files.length

def completedCount (t : TransferModel) : Nat := t.files.countP fun f => f.status = .done

def failedCount (t : TransferModel) : Nat :=
  t.files.countP fun f => f.status = .failed ∨ f.status = .skipped

/-- No row is waiting or transferring. -/
def settled (t : TransferModel) : Bool := t.completedCount + t.failedCount ≥ t.fileCount

def entry (t : TransferModel) (row : Nat) : FileEntry := t.files.getD row default

def indexOfFile (t : TransferModel) (fileId : QString) : Option Nat :=
  t.files.findIdx? fun f => f.id = fileId

def flush (t : TransferModel) : TransferModel := { t with dirty := none }

def touch (t : TransferModel) (row : Nat) : TransferModel := { t with
  dirty := match t.dirty with
    | none => some (row, row)
    | some (first, last) => some (min first row, max last row)
  flushTimer := true }

def recomputeTotals (t : TransferModel) : TransferModel :=
  { t with totalBytes := t.files.foldl (fun total f => wrap64 (total + f.size)) 0 }

def begin (t : TransferModel) (direction : Direction)
    (peerAlias address deviceType fingerprint : QString) (files : List FileEntry) : TransferModel :=
  recomputeTotals { t with
    files := files
    direction := direction
    peerAlias := peerAlias
    peerAddress := address
    peerDeviceType := deviceType
    peerFingerprint := fingerprint
    errorText := []
    destination := []
    transferredBytes := 0
    dirty := none }

def setState (t : TransferModel) (state : TransferState) (error : QString) : TransferModel :=
  if t.state = state ∧ t.errorText = error then t
  else
    let t := { t with state := state, errorText := error }
    if state ≠ .active then { t with flushTimer := false }.flush else t

def setDestination (t : TransferModel) (path : QString) : TransferModel :=
  { t with destination := path }

def setFileToken (t : TransferModel) (row : Nat) (token : QString) : TransferModel :=
  { t with files := t.files.modify row fun f => { f with token := token } }

def setFileLocalPath (t : TransferModel) (row : Nat) (path : QString) : TransferModel :=
  if row ≥ t.files.length then t
  else touch { t with files := t.files.modify row fun f => { f with localPath := path } } row

/-- A finished file counts for its whole size. -/
def settle (f : FileEntry) (status : FileStatus) (error : QString) : FileEntry :=
  { f with
    status := status
    error := error
    transferred := if status = .done ∧ f.transferred ≠ f.size then f.size else f.transferred }

def setFileStatus (t : TransferModel) (row : Nat) (status : FileStatus) (error : QString) :
    TransferModel :=
  if row ≥ t.files.length then t
  else
    let f := t.entry row
    let t := { t with
      files := t.files.modify row fun f => settle f status error
      transferredBytes := if status = FileStatus.done ∧ f.transferred ≠ f.size then
        wrap64 (t.transferredBytes + (f.size - f.transferred)) else t.transferredBytes }
    { t.touch row with flushTimer := false }.flush

def setFileTransferred (t : TransferModel) (row : Nat) (bytes : Int) : TransferModel :=
  if row ≥ t.files.length then t
  else
    let f := t.entry row
    let bytes := if bytes < 0 then 0 else bytes
    let bytes := if bytes > f.size ∧ f.size > 0 then f.size else bytes
    if bytes = f.transferred then t
    else touch { t with
      files := t.files.modify row fun f => { f with transferred := bytes }
      transferredBytes := wrap64 (t.transferredBytes + (bytes - f.transferred)) } row

/-! ## The rows -/

@[simp] theorem files_recomputeTotals (t : TransferModel) : t.recomputeTotals.files = t.files := rfl

@[simp] theorem files_begin (t : TransferModel) (d : Direction) (a b c e : QString)
    (fs : List FileEntry) : (t.begin d a b c e fs).files = fs := rfl

@[simp] theorem files_setState (t : TransferModel) (s : TransferState) (e : QString) :
    (t.setState s e).files = t.files := by
  unfold setState flush
  split
  · rfl
  · split <;> rfl

@[simp] theorem files_setDestination (t : TransferModel) (p : QString) :
    (t.setDestination p).files = t.files := rfl

@[simp] theorem files_touch (t : TransferModel) (row : Nat) : (t.touch row).files = t.files := rfl

@[simp] theorem files_setFileToken (t : TransferModel) (row : Nat) (token : QString) :
    (t.setFileToken row token).files =
      t.files.modify row fun f => { f with token := token } := rfl

theorem modify_of_ge {α : Type} {l : List α} {row : Nat} (f : α → α) (h : row ≥ l.length) :
    l.modify row f = l := by
  refine List.ext_getElem? fun i => ?_
  rw [List.getElem?_modify]
  split
  · subst row
    rw [List.getElem?_eq_none h]
    rfl
  · simp

theorem map_modify_of {α β : Type} {g : α → β} {f : α → α} (h : ∀ a, g (f a) = g a) (l : List α)
    (row : Nat) : (l.modify row f).map g = l.map g := by
  refine List.ext_getElem? fun i => ?_
  rw [List.getElem?_map, List.getElem?_map, List.getElem?_modify]
  split
  · cases l[i]? <;> simp [h]
  · simp

@[simp] theorem files_setFileLocalPath (t : TransferModel) (row : Nat) (path : QString) :
    (t.setFileLocalPath row path).files =
      t.files.modify row fun f => { f with localPath := path } := by
  unfold setFileLocalPath
  split
  · rename_i h
    rw [modify_of_ge _ h]
  · rfl

@[simp] theorem files_setFileStatus (t : TransferModel) (row : Nat) (s : FileStatus) (e : QString) :
    (t.setFileStatus row s e).files = t.files.modify row fun f => settle f s e := by
  unfold setFileStatus
  split
  · rename_i h
    rw [modify_of_ge _ h]
  · rfl

@[simp] theorem files_setFileTransferred_map {β : Type} (g : FileEntry → β)
    (hg : ∀ f n, g { f with transferred := n } = g f) (t : TransferModel) (row : Nat) (n : Int) :
    (t.setFileTransferred row n).files.map g = t.files.map g := by
  unfold setFileTransferred
  split
  · rfl
  · extract_lets f bytes bytes'
    split
    · rfl
    · exact map_modify_of (fun f => hg f _) _ _

/-! ## The state -/

@[simp] theorem state_setState (t : TransferModel) (state : TransferState) (error : QString) :
    (t.setState state error).state = state := by
  unfold setState
  split
  · rename_i h
    exact h.1
  · extract_lets u
    split <;> rfl

@[simp] theorem state_setFileStatus (t : TransferModel) (row : Nat) (status : FileStatus)
    (error : QString) : (t.setFileStatus row status error).state = t.state := by
  unfold setFileStatus
  split <;> rfl

@[simp] theorem state_setFileTransferred (t : TransferModel) (row : Nat) (bytes : Int) :
    (t.setFileTransferred row bytes).state = t.state := by
  unfold setFileTransferred
  split
  · rfl
  · extract_lets f bytes bytes'
    split <;> rfl

@[simp] theorem state_setFileLocalPath (t : TransferModel) (row : Nat) (path : QString) :
    (t.setFileLocalPath row path).state = t.state := by
  unfold setFileLocalPath
  split <;> rfl

end TransferModel

/-! ## What a row was asked for with -/

/-- All that `begin` gives a row and nothing changes later. -/
def FileEntry.declared (f : FileEntry) : QString × QString × Int × QString × QString :=
  (f.id, f.fileName, f.size, f.fileType, f.sha256)

namespace TransferModel

def declared (t : TransferModel) : List (QString × QString × Int × QString × QString) :=
  t.files.map FileEntry.declared

/-- The sizes of rows added up, as `recomputeTotals` does. -/
def totalSize (files : List FileEntry) : Int := files.foldl (fun total f => wrap64 (total + f.size)) 0

/-- What the accept page has beside the rows: who they come from, and their total. -/
def shown (t : TransferModel) : QString × QString × Int :=
  (t.peerAlias, t.peerFingerprint, t.totalBytes)

theorem wrap64_add (n m : Int) : wrap64 (wrap64 n + m) = wrap64 (n + m) := Int.bmod_add_bmod

/-- The total is that of the sizes, unless it does not fit a `qint64`. -/
theorem totalSize_eq (files : List FileEntry) :
    totalSize files = wrap64 (files.map FileEntry.size).sum := by
  unfold totalSize
  induction files using List.reverseRecOn with
  | nil => rfl
  | append_singleton files f ih =>
    rw [List.foldl_append, ih, List.map_append, List.sum_append]
    simp only [List.foldl_cons, List.foldl_nil, List.map_cons, List.map_nil, List.sum_cons,
      List.sum_nil, Int.add_zero]
    exact wrap64_add _ _

/-- The same rows with the same statuses, for the same peer. -/
structure Alike (t t' : TransferModel) : Prop where
  rows : t'.files.map (fun f => (f.declared, f.status)) =
    t.files.map fun f => (f.declared, f.status)
  shown : t'.shown = t.shown

theorem indexOfFile_eq (t : TransferModel) (id : QString) :
    t.indexOfFile id = t.declared.findIdx? fun d => d.1 = id := by
  rw [declared, List.findIdx?_map]
  rfl

theorem indexOfFile_congr {t t' : TransferModel} (h : t'.declared = t.declared) (id : QString) :
    t'.indexOfFile id = t.indexOfFile id := by rw [indexOfFile_eq, indexOfFile_eq, h]

theorem fileCount_congr {t t' : TransferModel} (h : t'.declared = t.declared) :
    t'.fileCount = t.fileCount := by
  have := congrArg List.length h
  simpa [declared, fileCount] using this

theorem declared_entry {t t' : TransferModel} (h : t'.declared = t.declared) (row : Nat) :
    (t'.entry row).declared = (t.entry row).declared := by
  have := congrArg (fun l => l.getD row (default : FileEntry).declared) h
  simpa only [declared, entry, List.getD_map] using this

theorem size_congr {t t' : TransferModel} (h : t'.declared = t.declared) (row : Nat) :
    (t'.entry row).size = (t.entry row).size :=
  congrArg (fun d => d.2.2.1) (declared_entry h row)

theorem id_congr {t t' : TransferModel} (h : t'.declared = t.declared) (row : Nat) :
    (t'.entry row).id = (t.entry row).id :=
  congrArg (fun d => d.1) (declared_entry h row)

/-- The row a file id stands for carries that id. -/
theorem entry_of_indexOfFile {t : TransferModel} {id : QString} {row : Nat}
    (h : t.indexOfFile id = some row) : row < t.fileCount ∧ (t.entry row).id = id := by
  unfold indexOfFile at h
  obtain ⟨hlt, heq⟩ := List.findIdx?_eq_some_iff_findIdx_eq.1 h
  have hid := @List.findIdx_getElem _ (fun f : FileEntry => decide (f.id = id)) t.files
    (by rw [heq]; exact hlt)
  subst heq
  refine ⟨hlt, ?_⟩
  unfold entry
  rw [List.getD_eq_getElem _ _ hlt]
  simpa using hid

namespace Alike

variable {t t' t'' : TransferModel}

theorem refl (t : TransferModel) : t.Alike t := ⟨rfl, rfl⟩

theorem trans (h : t.Alike t') (h' : t'.Alike t'') : t.Alike t'' :=
  ⟨h'.rows.trans h.rows, h'.shown.trans h.shown⟩

theorem declared (h : t.Alike t') : t'.declared = t.declared := by
  have := congrArg (List.map Prod.fst) h.rows
  rw [List.map_map, List.map_map] at this
  exact this

theorem statuses (h : t.Alike t') : t'.files.map (·.status) = t.files.map (·.status) := by
  have := congrArg (List.map Prod.snd) h.rows
  rw [List.map_map, List.map_map] at this
  exact this

theorem status (h : t.Alike t') (row : Nat) : (t'.entry row).status = (t.entry row).status := by
  have := congrArg (fun l => l.getD row (default : FileEntry).status) h.statuses
  simpa only [entry, List.getD_map] using this

end Alike

theorem alike_setState (t : TransferModel) (s : TransferState) (e : QString) :
    t.Alike (t.setState s e) := by
  refine ⟨by rw [files_setState], ?_⟩
  unfold setState flush
  split
  · rfl
  · split <;> rfl

theorem alike_setDestination (t : TransferModel) (p : QString) : t.Alike (t.setDestination p) :=
  ⟨rfl, rfl⟩

theorem alike_setFileToken (t : TransferModel) (row : Nat) (token : QString) :
    t.Alike (t.setFileToken row token) :=
  ⟨map_modify_of (f := fun f : FileEntry => { f with token := token }) (fun _ => rfl) _ _, rfl⟩

theorem alike_setFileTransferred (t : TransferModel) (row : Nat) (n : Int) :
    t.Alike (t.setFileTransferred row n) := by
  refine ⟨files_setFileTransferred_map _ (fun _ _ => rfl) t row n, ?_⟩
  unfold setFileTransferred touch
  split
  · rfl
  · extract_lets f bytes bytes'
    split <;> rfl

theorem alike_setFileLocalPath (t : TransferModel) (row : Nat) (path : QString) :
    t.Alike (t.setFileLocalPath row path) := by
  refine ⟨?_, ?_⟩
  · rw [files_setFileLocalPath]
    exact map_modify_of (f := fun f : FileEntry => { f with localPath := path }) (fun _ => rfl) _ _
  · unfold setFileLocalPath touch
    split <;> rfl

@[simp] theorem declared_setFileStatus (t : TransferModel) (row : Nat) (s : FileStatus)
    (e : QString) : (t.setFileStatus row s e).declared = t.declared := by
  rw [declared, files_setFileStatus]
  exact map_modify_of (f := fun f => settle f s e) (fun _ => rfl) _ _

@[simp] theorem shown_setFileStatus (t : TransferModel) (row : Nat) (s : FileStatus) (e : QString) :
    (t.setFileStatus row s e).shown = t.shown := by
  unfold setFileStatus
  split <;> rfl

theorem entry_setFileStatus (t : TransferModel) (row : Nat) (s : FileStatus) (e : QString)
    (row' : Nat) : (t.setFileStatus row s e).entry row' =
      if row' = row ∧ row < t.fileCount then settle (t.entry row') s e else t.entry row' := by
  unfold entry fileCount
  rw [files_setFileStatus, List.getD_eq_getElem?_getD, List.getElem?_modify,
    List.getD_eq_getElem?_getD]
  by_cases hr : row = row'
  · subst hr
    by_cases hlt : row < t.files.length
    · simp [hlt]
    · simp [hlt]
  · simp [hr, Ne.symm hr]

theorem entry_setFileToken (t : TransferModel) (row : Nat) (token : QString) (row' : Nat) :
    (t.setFileToken row token).entry row' =
      if row' = row ∧ row < t.fileCount then { t.entry row' with token := token }
      else t.entry row' := by
  unfold entry fileCount
  rw [files_setFileToken, List.getD_eq_getElem?_getD, List.getElem?_modify,
    List.getD_eq_getElem?_getD]
  by_cases hr : row = row'
  · subst hr
    by_cases hlt : row < t.files.length
    · simp [hlt]
    · simp [hlt]
  · simp [hr, Ne.symm hr]

theorem entry_setFileTransferred (t : TransferModel) (row : Nat) (bytes : Int) (row' : Nat) :
    ∃ n, (t.setFileTransferred row bytes).entry row' = { t.entry row' with transferred := n } := by
  have hmap := congrArg (fun l => l.getD row' (default : FileEntry))
    (files_setFileTransferred_map (fun f => { f with transferred := 0 }) (fun _ _ => rfl) t row bytes)
  refine ⟨((t.setFileTransferred row bytes).entry row').transferred, ?_⟩
  have hentry : ∀ t : TransferModel, (t.files.map fun f => { f with transferred := 0 }).getD row'
      (default : FileEntry) = { t.entry row' with transferred := 0 } := by
    intro t
    exact List.getD_map t.files default fun f : FileEntry => { f with transferred := 0 }
  simp only [hentry] at hmap
  exact congrArg (fun f : FileEntry =>
    { f with transferred := ((t.setFileTransferred row bytes).entry row').transferred }) hmap

@[simp] theorem fileCount_setFileStatus (t : TransferModel) (row : Nat) (s : FileStatus)
    (e : QString) : (t.setFileStatus row s e).fileCount = t.fileCount := by simp [fileCount]

@[simp] theorem fileCount_setFileToken (t : TransferModel) (row : Nat) (token : QString) :
    (t.setFileToken row token).fileCount = t.fileCount := by simp [fileCount]

@[simp] theorem fileCount_setState (t : TransferModel) (s : TransferState) (e : QString) :
    (t.setState s e).fileCount = t.fileCount := by simp [fileCount]

@[simp] theorem entry_setState (t : TransferModel) (s : TransferState) (e : QString) (row : Nat) :
    (t.setState s e).entry row = t.entry row := by simp [entry]

theorem status_setFileStatus (t : TransferModel) (row : Nat) (s : FileStatus) (e : QString)
    (row' : Nat) : ((t.setFileStatus row s e).entry row').status =
      if row' = row ∧ row < t.fileCount then s else (t.entry row').status := by
  rw [entry_setFileStatus, apply_ite FileEntry.status]
  rfl

theorem localPath_setFileStatus (t : TransferModel) (row : Nat) (s : FileStatus) (e : QString)
    (row' : Nat) :
    ((t.setFileStatus row s e).entry row').localPath = (t.entry row').localPath := by
  rw [entry_setFileStatus, apply_ite FileEntry.localPath]
  exact ite_self _

theorem localPath_setFileLocalPath {t : TransferModel} {row : Nat} (h : row < t.fileCount)
    (path : QString) : ((t.setFileLocalPath row path).entry row).localPath = path := by
  have hlt : row < t.files.length := h
  unfold entry
  rw [files_setFileLocalPath, List.getD_eq_getElem?_getD, List.getElem?_modify]
  simp [hlt]

theorem files_eq (t : TransferModel) : t.files = (List.range t.fileCount).map t.entry := by
  refine List.ext_getElem (by simp [fileCount]) fun row h _ => ?_
  rw [List.getElem_map, List.getElem_range, entry, List.getD_eq_getElem _ _ h]

theorem forall_files {t : TransferModel} {P : FileEntry → Prop} :
    (∀ f ∈ t.files, P f) ↔ ∀ row < t.fileCount, P (t.entry row) := by
  rw [files_eq]
  simp

/-- A row whose status changes to something else than done was not done. -/
theorem done_setFileStatus {t : TransferModel} {row : Nat} {s : FileStatus} (e : QString)
    (hrow : (t.entry row).status ≠ .done) (hs : s ≠ .done) (row' : Nat) :
    ((t.setFileStatus row s e).entry row').status = .done ↔ (t.entry row').status = .done := by
  rw [status_setFileStatus]
  split
  · rename_i h
    rw [h.1]
    exact iff_of_false hs hrow
  · exact .rfl

end TransferModel

end LocalSend
