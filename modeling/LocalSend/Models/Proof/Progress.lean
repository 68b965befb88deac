import LocalSend.Lib.Run
import LocalSend.Models.Transfer
import Mathlib.Algebra.Order.BigOperators.Group.List
import Mathlib.Algebra.Order.Ring.Int

/-!
# The progress figures over any calls

The total is kept by differences: a setter that moves a row's count moves the total along. `Tallied`
is what the figures should satisfy, `Sized` what `begin` fixes for them and no later call changes.
A row of size 0 is not clamped (`setFileTransferred`), so a count above 0 is recorded there:
`Counted` are the calls that do not do this.
-/

set_option autoImplicit false

namespace LocalSend

/-- Rows a transfer can begin with: no size is negative, and they add up to a `qint64`. -/
def SizedFiles : Type :=
  { files : List FileEntry // (∀ f ∈ files, 0 ≤ f.size) ∧ (files.map FileEntry.size).sum < 2 ^ 63 }

namespace TransferModel

/-- The calls that change the model, and the firing of its timer. -/
inductive Call
  | begin (direction : Direction) (peerAlias address deviceType fingerprint : QString)
      (files : SizedFiles)
  | setState (state : TransferState) (error : QString)
  | setDestination (path : QString)
  | setFileToken (row : Int) (token : QString)
  | setFileLocalPath (row : Int) (path : QString)
  | setFileStatus (row : Int) (status : FileStatus) (error : QString)
  | setFileTransferred (row : Int) (bytes : Int64)
  | flushTimeout

def next (t : TransferModel) : Call → TransferModel
  | .begin direction peerAlias address deviceType fingerprint files =>
    t.begin direction peerAlias address deviceType fingerprint files.val
  | .setState state error => t.setState state error
  | .setDestination path => t.setDestination path
  | .setFileToken row token => if row < 0 then t else t.setFileToken row.toNat token
  | .setFileLocalPath row path => if row < 0 then t else t.setFileLocalPath row.toNat path
  | .setFileStatus row status error =>
    if row < 0 then t else t.setFileStatus row.toNat status error
  | .setFileTransferred row bytes =>
    if row < 0 then t else t.setFileTransferred row.toNat bytes.toInt
  -- the timer is single shot
  | .flushTimeout => if t.flushTimer then { t with flushTimer := false }.flush else t

/-- Nothing has begun. -/
def system : Lib.System TransferModel Call := ⟨(· = {}), next⟩

/-- What the rows have moved. -/
def moved (files : List FileEntry) : Int := (files.map FileEntry.transferred).sum

/-- No row is beyond its size, and the total is that of the rows. -/
structure Tallied (t : TransferModel) : Prop where
  rows : ∀ f ∈ t.files, 0 ≤ f.transferred ∧ f.transferred ≤ f.size
  sum : t.transferredBytes = moved t.files
  within : t.transferredBytes ≤ t.totalBytes

/-- The rows are those of a `SizedFiles`, and the total is that of their sizes. -/
structure Sized (t : TransferModel) : Prop where
  sizes : ∀ n ∈ t.files.map FileEntry.size, 0 ≤ n
  total : t.totalBytes = (t.files.map FileEntry.size).sum
  fits : t.totalBytes < 2 ^ 63

/-- A transfer begins with nothing moved, and nothing is said to have moved of an empty file. -/
def Counted (t : TransferModel) : Call → Prop
  | .begin _ _ _ _ _ files => ∀ f ∈ files.val, f.transferred = 0
  | .setFileTransferred row bytes =>
    0 ≤ row → row.toNat < t.fileCount → (t.entry row.toNat).size = 0 → bytes.toInt ≤ 0
  | _ => True

/-! ## What the figures depend on -/

/-- The counts and sizes of the rows, and the two totals. -/
def figures (t : TransferModel) : List (Int × Int) × Int × Int :=
  (t.files.map fun f => (f.transferred, f.size), t.transferredBytes, t.totalBytes)

variable {t t' : TransferModel}

theorem moved_eq (files : List FileEntry) :
    moved files = ((files.map fun f => (f.transferred, f.size)).map Prod.fst).sum := by
  rw [List.map_map]
  rfl

theorem sizes_eq (files : List FileEntry) :
    files.map FileEntry.size = (files.map fun f => (f.transferred, f.size)).map Prod.snd := by
  rw [List.map_map]
  rfl

theorem tallied_iff : t.Tallied ↔ (∀ p ∈ t.figures.1, 0 ≤ p.1 ∧ p.1 ≤ p.2) ∧
    t.figures.2.1 = (t.figures.1.map Prod.fst).sum ∧ t.figures.2.1 ≤ t.figures.2.2 := by
  have hrows : (∀ p ∈ t.figures.1, 0 ≤ p.1 ∧ p.1 ≤ p.2) ↔
      ∀ f ∈ t.files, 0 ≤ f.transferred ∧ f.transferred ≤ f.size := by simp [figures]
  have hsum : (t.figures.1.map Prod.fst).sum = moved t.files := (moved_eq t.files).symm
  rw [hrows, hsum]
  exact ⟨fun h => ⟨h.rows, h.sum, h.within⟩, fun ⟨h, hs, hw⟩ => ⟨h, hs, hw⟩⟩

theorem tallied_congr (h : t'.figures = t.figures) : t'.Tallied ↔ t.Tallied := by
  rw [tallied_iff, tallied_iff, h]

theorem Sized.congr (h : t.Sized) (hsizes : t'.files.map FileEntry.size = t.files.map FileEntry.size)
    (htotal : t'.totalBytes = t.totalBytes) : t'.Sized := by
  refine ⟨?_, ?_, ?_⟩
  · rw [hsizes]
    exact h.sizes
  · rw [htotal, hsizes]
    exact h.total
  · rw [htotal]
    exact h.fits

theorem Sized.of_figures (h : t.Sized) (hf : t'.figures = t.figures) : t'.Sized := by
  refine h.congr ?_ (congrArg (fun x => x.2.2) hf)
  rw [sizes_eq, sizes_eq]
  exact congrArg (fun x => x.1.map Prod.snd) hf

@[simp] theorem figures_flush (t : TransferModel) : t.flush.figures = t.figures := rfl

@[simp] theorem figures_touch (t : TransferModel) (row : Nat) :
    (t.touch row).figures = t.figures := rfl

@[simp] theorem figures_setState (t : TransferModel) (s : TransferState) (e : QString) :
    (t.setState s e).figures = t.figures := by
  unfold setState
  split
  · rfl
  · split <;> rfl

@[simp] theorem figures_setDestination (t : TransferModel) (p : QString) :
    (t.setDestination p).figures = t.figures := rfl

@[simp] theorem figures_setFileToken (t : TransferModel) (row : Nat) (token : QString) :
    (t.setFileToken row token).figures = t.figures := by
  unfold figures
  rw [files_setFileToken]
  exact congrArg (·, _) (map_modify_of (f := fun f : FileEntry => { f with token := token })
    (fun _ => rfl) _ _)

@[simp] theorem figures_setFileLocalPath (t : TransferModel) (row : Nat) (path : QString) :
    (t.setFileLocalPath row path).figures = t.figures := by
  have hrows : (t.setFileLocalPath row path).files.map (fun f => (f.transferred, f.size)) =
      t.files.map fun f => (f.transferred, f.size) := by
    rw [files_setFileLocalPath]
    exact map_modify_of (f := fun f : FileEntry => { f with localPath := path }) (fun _ => rfl) _ _
  have htotals : ((t.setFileLocalPath row path).transferredBytes,
      (t.setFileLocalPath row path).totalBytes) = (t.transferredBytes, t.totalBytes) := by
    unfold setFileLocalPath
    split <;> rfl
  unfold figures
  rw [hrows, htotals]

/-! ## A row is moved -/

theorem sum_modify {α : Type} (g : α → Int) (f : α → α) : ∀ (l : List α) (row : Nat)
    (h : row < l.length), ((l.modify row f).map g).sum = (l.map g).sum + (g (f l[row]) - g l[row])
  | a :: l, 0, _ => by
    simp
    omega
  | a :: l, row + 1, h => by
    have ih := sum_modify g f l row (by simpa using h)
    simp [ih]
    omega

theorem Sized.moved_le (h : t.Sized) (hrows : ∀ f ∈ t.files, f.transferred ≤ f.size) :
    moved t.files ≤ t.totalBytes := by
  rw [h.total]
  exact List.sum_le_sum hrows

theorem Tallied.nonneg (h : t.Tallied) : 0 ≤ t.transferredBytes := by
  rw [h.sum]
  refine List.sum_nonneg fun n hn => ?_
  obtain ⟨f, hf, rfl⟩ := List.mem_map.1 hn
  exact (h.rows f hf).1

theorem Tallied.exact (h : t.Tallied) (hs : t.Sized) :
    wrap64 t.transferredBytes = t.transferredBytes := by
  have hlow := h.nonneg
  have hhigh := h.within
  have hfits := hs.fits
  exact Int.bmod_eq_of_le (by omega) (by omega)

theorem Tallied.bounds (h : t.Tallied) {row : Nat} (hrow : row < t.files.length) :
    0 ≤ (t.entry row).transferred ∧ (t.entry row).transferred ≤ (t.entry row).size := by
  refine h.rows _ ?_
  rw [entry, List.getD_eq_getElem _ _ hrow]
  exact List.getElem_mem _

/-- A row whose count moves within its size, with the total moved along. -/
theorem Tallied.move (h : t.Tallied) (hs : t.Sized) {row : Nat} (hrow : row < t.files.length)
    {g : FileEntry → FileEntry} (hsize : ∀ f, (g f).size = f.size)
    (hfiles : t'.files = t.files.modify row g) (hlow : 0 ≤ (g (t.entry row)).transferred)
    (hhigh : (g (t.entry row)).transferred ≤ (t.entry row).size)
    (hsum : t'.transferredBytes =
      wrap64 (t.transferredBytes + ((g (t.entry row)).transferred - (t.entry row).transferred)))
    (htotal : t'.totalBytes = t.totalBytes) : t'.Tallied := by
  have hentry : t.entry row = t.files[row] := List.getD_eq_getElem _ _ hrow
  have hrows : ∀ f ∈ t'.files, 0 ≤ f.transferred ∧ f.transferred ≤ f.size := by
    intro f hf
    rw [hfiles] at hf
    obtain ⟨i, hi, rfl⟩ := List.getElem_of_mem hf
    rw [List.getElem_modify]
    split
    · subst i
      rw [← hentry, hsize]
      exact ⟨hlow, hhigh⟩
    · exact h.rows _ (List.getElem_mem _)
  have hmoved : moved t'.files =
      t.transferredBytes + ((g (t.entry row)).transferred - (t.entry row).transferred) := by
    rw [h.sum, hfiles, hentry]
    exact sum_modify FileEntry.transferred g t.files row hrow
  have hs' : t'.Sized := by
    refine hs.congr ?_ htotal
    rw [hfiles]
    exact map_modify_of hsize _ _
  -- what the rows add up to is between nothing and the total, so nothing wraps
  have hle : moved t'.files ≤ t'.totalBytes := hs'.moved_le fun f hf => (hrows f hf).2
  have hnonneg : 0 ≤ moved t'.files := by
    refine List.sum_nonneg fun n hn => ?_
    obtain ⟨f, hf, rfl⟩ := List.mem_map.1 hn
    exact (hrows f hf).1
  have hfits := hs'.fits
  have hexact : t'.transferredBytes = moved t'.files := by
    rw [hsum, ← hmoved]
    exact Int.bmod_eq_of_le (by omega) (by omega)
  exact ⟨hrows, hexact, by omega⟩

/-! ## One call -/

theorem sized_begin (t : TransferModel) (d : Direction) (a b c e : QString) (files : SizedFiles) :
    (t.begin d a b c e files.val).Sized := by
  have hnonneg : ∀ n ∈ files.val.map FileEntry.size, 0 ≤ n := by
    intro n hn
    obtain ⟨f, hf, rfl⟩ := List.mem_map.1 hn
    exact files.property.1 f hf
  have hsum := List.sum_nonneg hnonneg
  have hfits := files.property.2
  have htotal : (t.begin d a b c e files.val).totalBytes = (files.val.map FileEntry.size).sum := by
    refine (totalSize_eq files.val).trans ?_
    exact Int.bmod_eq_of_le (by omega) (by omega)
  exact ⟨hnonneg, htotal, by omega⟩

theorem tallied_begin (t : TransferModel) (d : Direction) (a b c e : QString)
    (files : SizedFiles) :
    (t.begin d a b c e files.val).Tallied ↔ ∀ f ∈ files.val, f.transferred = 0 := by
  have hs := sized_begin t d a b c e files
  constructor
  · intro h f hf
    have hzero : moved files.val = 0 := h.sum.symm
    have hle : f.transferred ≤ moved files.val := by
      refine List.single_le_sum (fun n hn => ?_) _ (List.mem_map_of_mem hf)
      obtain ⟨f', hf', rfl⟩ := List.mem_map.1 hn
      exact (h.rows f' hf').1
    have hlow := (h.rows f hf).1
    omega
  · intro hzero
    have hrows : ∀ f ∈ files.val, 0 ≤ f.transferred ∧ f.transferred ≤ f.size := by
      intro f hf
      have hsize := files.property.1 f hf
      rw [hzero f hf]
      omega
    have hmoved : moved files.val = 0 := by
      refine List.sum_eq_zero fun n hn => ?_
      obtain ⟨f, hf, rfl⟩ := List.mem_map.1 hn
      exact hzero f hf
    have hle := hs.moved_le fun f hf => (hrows f hf).2
    refine ⟨hrows, hmoved.symm, ?_⟩
    rw [files_begin, hmoved] at hle
    exact hle

theorem sized_setFileStatus (h : t.Sized) (row : Nat) (s : FileStatus) (e : QString) :
    (t.setFileStatus row s e).Sized := by
  refine h.congr ?_ ?_
  · rw [files_setFileStatus]
    exact map_modify_of (f := fun f => settle f s e) (fun _ => rfl) _ _
  · unfold setFileStatus
    split <;> rfl

theorem sized_setFileTransferred (h : t.Sized) (row : Nat) (bytes : Int) :
    (t.setFileTransferred row bytes).Sized := by
  refine h.congr (files_setFileTransferred_map _ (fun _ _ => rfl) t row bytes) ?_
  unfold setFileTransferred
  split
  · rfl
  · extract_lets f b b'
    split <;> rfl

theorem tallied_setFileStatus (h : t.Tallied) (hs : t.Sized) (row : Nat) (s : FileStatus)
    (e : QString) : (t.setFileStatus row s e).Tallied := by
  by_cases hrow : row < t.files.length
  · have hbounds := h.bounds hrow
    refine h.move hs hrow (g := fun f => settle f s e) (fun _ => rfl) (by simp) ?_ ?_ ?_ ?_
    · simp only [settle]
      split <;> omega
    · simp only [settle]
      split <;> omega
    · simp only [settle, setFileStatus, if_neg (by omega : ¬ row ≥ t.files.length), flush, touch]
      split
      · rfl
      · rw [Int.sub_self, Int.add_zero, h.exact hs]
    · unfold setFileStatus
      split <;> rfl
  · have hsame : t.setFileStatus row s e = t := if_pos (by omega)
    rw [hsame]
    exact h

/-- What `setFileTransferred` records for a count. -/
def recorded (size bytes : Int) : Int :=
  if max bytes 0 > size ∧ size > 0 then size else max bytes 0

theorem setFileTransferred_eq (t : TransferModel) {row : Nat} (hrow : row < t.files.length)
    (bytes : Int) : t.setFileTransferred row bytes =
      if recorded (t.entry row).size bytes = (t.entry row).transferred then t
      else touch { t with
        files := t.files.modify row fun f =>
          { f with transferred := recorded (t.entry row).size bytes }
        transferredBytes := wrap64 (t.transferredBytes +
          (recorded (t.entry row).size bytes - (t.entry row).transferred)) } row := by
  have hmax : (if bytes < 0 then 0 else bytes) = max bytes 0 := by
    split <;> omega
  unfold setFileTransferred recorded
  rw [if_neg (by omega : ¬ row ≥ t.files.length), hmax]

theorem tallied_setFileTransferred (h : t.Tallied) (hs : t.Sized) (row : Nat) (bytes : Int) :
    (t.setFileTransferred row bytes).Tallied ↔
      (row < t.fileCount → (t.entry row).size = 0 → bytes ≤ 0) := by
  by_cases hrow : row < t.files.length
  · have hbounds := h.bounds hrow
    have hrec : recorded (t.entry row).size bytes ≤ (t.entry row).size ↔
        ((t.entry row).size = 0 → bytes ≤ 0) := by
      unfold recorded
      split <;> omega
    have hnonneg : 0 ≤ recorded (t.entry row).size bytes := by
      unfold recorded
      split <;> omega
    have hcond : (row < t.fileCount → (t.entry row).size = 0 → bytes ≤ 0) ↔
        recorded (t.entry row).size bytes ≤ (t.entry row).size := by
      rw [hrec]
      exact ⟨fun hc => hc hrow, fun hc _ => hc⟩
    rw [hcond, setFileTransferred_eq t hrow]
    split
    · rename_i hsame
      rw [hsame]
      exact iff_of_true h hbounds.2
    · constructor
      · intro h'
        have hrow' : row < (t.files.modify row fun f =>
            { f with transferred := recorded (t.entry row).size bytes }).length := by simpa
        have hb := (h'.bounds hrow').2
        simpa [entry, touch, hrow] using hb
      · intro hle
        exact h.move hs hrow (g := fun f =>
          { f with transferred := recorded (t.entry row).size bytes }) (fun _ => rfl) rfl hnonneg
          hle rfl rfl
  · have hsame : t.setFileTransferred row bytes = t := if_pos (by omega)
    rw [hsame]
    exact iff_of_true h fun hlt => absurd hlt hrow

theorem sized_next (h : t.Sized) (call : Call) : (t.next call).Sized := by
  cases call with
  | begin d a b c e files => exact sized_begin t d a b c e files
  | setState s e => exact h.of_figures (figures_setState t s e)
  | setDestination p => exact h.of_figures (figures_setDestination t p)
  | setFileToken row token =>
    simp only [next]
    split
    · exact h
    · exact h.of_figures (figures_setFileToken t _ token)
  | setFileLocalPath row path =>
    simp only [next]
    split
    · exact h
    · exact h.of_figures (figures_setFileLocalPath t _ path)
  | setFileStatus row s e =>
    simp only [next]
    split
    · exact h
    · exact sized_setFileStatus h _ s e
  | setFileTransferred row bytes =>
    simp only [next]
    split
    · exact h
    · exact sized_setFileTransferred h _ _
  | flushTimeout =>
    simp only [next]
    split
    · exact h.of_figures rfl
    · exact h

/-- A call keeps the figures right if and only if it is one of the `Counted`. -/
theorem tallied_next (h : t.Tallied) (hs : t.Sized) (call : Call) :
    (t.next call).Tallied ↔ t.Counted call := by
  cases call with
  | begin d a b c e files => exact tallied_begin t d a b c e files
  | setState s e => exact iff_of_true ((tallied_congr (figures_setState t s e)).2 h) trivial
  | setDestination p => exact iff_of_true ((tallied_congr (figures_setDestination t p)).2 h) trivial
  | setFileToken row token =>
    refine iff_of_true ?_ trivial
    simp only [next]
    split
    · exact h
    · exact (tallied_congr (figures_setFileToken t _ token)).2 h
  | setFileLocalPath row path =>
    refine iff_of_true ?_ trivial
    simp only [next]
    split
    · exact h
    · exact (tallied_congr (figures_setFileLocalPath t _ path)).2 h
  | setFileStatus row s e =>
    refine iff_of_true ?_ trivial
    simp only [next]
    split
    · exact h
    · exact tallied_setFileStatus h hs _ s e
  | setFileTransferred row bytes =>
    simp only [next, Counted]
    split
    · exact iff_of_true h fun hrow => by omega
    · rename_i hrow
      rw [tallied_setFileTransferred h hs]
      exact ⟨fun hc _ => hc, fun hc => hc (by omega)⟩
  | flushTimeout =>
    refine iff_of_true ?_ trivial
    simp only [next]
    split
    · refine (tallied_congr ?_).2 h
      rfl
    · exact h

/-! ## Any calls -/

theorem sized_start : Sized {} := ⟨by simp, rfl, by decide⟩

theorem tallied_start : Tallied {} := ⟨by simp, rfl, by decide⟩

theorem sized_run (calls : List Call) : (calls.foldl next {}).Sized := by
  refine Lib.ReachedBy.invariant (S := system) (I := Sized) ?_ (fun t call h _ => sized_next h call)
    (Lib.ReachedBy.run_any calls (.start rfl))
  intro t ht
  rw [ht]
  exact sized_start

/-- A row set to done counts for its whole size. The figures are right all along a run if and only
if every transfer of it begins with nothing moved and no count above 0 is recorded for a row of
size 0. -/
theorem progress_accounted (calls : List Call) :
    (∀ (t : TransferModel) (row : Nat) (e : QString), row < t.fileCount →
      ((t.next (.setFileStatus row .done e)).entry row).transferred = (t.entry row).size ∧
      ((t.next (.setFileStatus row .done e)).entry row).size = (t.entry row).size) ∧
    ((∀ before, before <+: calls → (before.foldl next {}).Tallied) ↔
      Lib.Allowed system Counted {} calls) := by
  refine ⟨fun t row e hrow => ?_, ?_⟩
  · have hentry : (t.next (.setFileStatus row .done e)).entry row =
        settle (t.entry row) .done e := by
      show (t.setFileStatus row .done e).entry row = settle (t.entry row) .done e
      rw [entry_setFileStatus, if_pos ⟨rfl, hrow⟩]
    rw [hentry]
    simp only [settle]
    split <;> simp_all
  · have hstep : ∀ (t : TransferModel) (call : Call), t.Sized ∧ t.Tallied →
        ((t.next call).Sized ∧ (t.next call).Tallied ↔ Counted t call) := fun t call h =>
      ⟨fun h' => (tallied_next h.2 h.1 call).1 h'.2,
        fun hc => ⟨sized_next h.1 call, (tallied_next h.2 h.1 call).2 hc⟩⟩
    have hiff := Lib.always_iff_allowed (S := system) hstep ⟨sized_start, tallied_start⟩ calls
    rw [← hiff]
    exact ⟨fun h before hb => ⟨sized_run before, h before hb⟩, fun h before hb => (h before hb).2⟩

theorem progress_accounted_resumed :
    ∃ t : TransferModel, t.fileCount = 1 ∧
      ((t.next (.setFileStatus (0 : Nat) .done [])).entry 0).transferred = (t.entry 0).size :=
  ⟨{ files := [{ size := 7, transferred := 3 }] }, rfl,
    ((progress_accounted []).1 { files := [{ size := 7, transferred := 3 }] } 0 []
      (by decide)).1⟩

/-- One byte of an empty file is recorded. -/
theorem progress_empty_file : ¬ ∀ calls : List Call, (calls.foldl next {}).Tallied := by
  intro h
  have hwithin := (h [
    .begin .sending (str "Peer") (str "10.0.0.2") (str "desktop") (str "A")
      ⟨[{ id := str "z0", size := 0 }], by decide⟩,
    .setFileTransferred 0 1]).within
  revert hwithin
  decide

end TransferModel

end LocalSend
