import LocalSend.Lib.Coalesce
import LocalSend.Models.Proof.Progress

/-!
# No repaint is lost

What the views of the model are told: `emitted` are the signals of a call about the rows. A run is
`Watched`: the history has the rows each call changed, which it writes to before it emits anything,
and then its signals. `Kept` is what the span and the timer are for: a row that changed and was not
repainted is in the span, the span is within the rows, and the timer runs while there is a span.

A reset empties the span and leaves the timer as it is. An armed timer then fires for nothing, or
for a row that was touched since.
-/

set_option autoImplicit false

namespace LocalSend

/-- What a view shows of a row and a setter changes. -/
def FileEntry.visible (f : FileEntry) : FileStatus × QString × Int × QString :=
  (f.status, f.error, f.transferred, f.localPath)

namespace TransferModel

/-- Any call, or the firing of the timer. A transfer begins with any rows. -/
inductive Operation
  | begin (direction : Direction) (peerAlias address deviceType fingerprint : QString)
      (files : List FileEntry)
  | call (c : Call)

def perform (t : TransferModel) : Operation → TransferModel
  | .begin direction peerAlias address deviceType fingerprint files =>
    t.begin direction peerAlias address deviceType fingerprint files
  | .call c => t.next c

/-- The `dataChanged` that `flush` emits. -/
def flushed (t : TransferModel) : List (Lib.Notice Nat) := Lib.tell t.dirty

/-- The signals of a call about the rows: `dataChanged`, and the model reset of `begin`. -/
def emitted (t : TransferModel) : Call → List (Lib.Notice Nat)
  | .begin .. => [.all]
  | .setState state error =>
    if t.state = state ∧ t.errorText = error then []
    else if state ≠ .active then t.flushed else []
  | .setFileStatus row _ _ =>
    if row < 0 then [] else if row.toNat ≥ t.files.length then [] else (t.touch row.toNat).flushed
  | .flushTimeout => if t.flushTimer then t.flushed else []
  -- these are folded into the rows, or change nothing a view shows
  | .setDestination _ => []
  | .setFileToken _ _ => []
  | .setFileLocalPath _ _ => []
  | .setFileTransferred _ _ => []

def told (t : TransferModel) : Operation → List (Lib.Notice Nat)
  | .begin .. => [.all]
  | .call c => t.emitted c

/-- The rows that show something else than before. -/
def changed (t t' : TransferModel) : List Nat :=
  (List.range t'.fileCount).filter fun row => (t'.entry row).visible ≠ (t.entry row).visible

/-- The model, and what has happened to its rows so far. -/
structure Watched where
  model : TransferModel := {}
  history : List (Lib.Notice Nat) := []

def Watched.next (w : Watched) (op : Operation) : Watched where
  model := w.model.perform op
  history :=
    w.history ++ (changed w.model (w.model.perform op)).map .wrote ++ w.model.told op

/-- Nothing has begun, and nothing has happened. -/
def watched : Lib.System Watched Operation := ⟨(· = {}), Watched.next⟩

structure Kept (w : Watched) : Prop where
  pending : Lib.Gathers w.model.dirty w.history
  rows : Lib.EndsBefore w.model.dirty w.model.fileCount
  armed : w.model.dirty ≠ none → w.model.flushTimer = true

/-! ## The rows a call changes -/

section

variable {t t' : TransferModel} {row : Nat} {h : List (Lib.Notice Nat)}

theorem changed_eq_nil (hfiles : t'.files.map FileEntry.visible = t.files.map FileEntry.visible) :
    changed t t' = [] := by
  have hentry : ∀ r, (t'.entry r).visible = (t.entry r).visible := by
    intro r
    have := congrArg (fun l => l.getD r (default : FileEntry).visible) hfiles
    simpa only [entry, List.getD_map] using this
  simp [changed, hentry]

theorem changed_of_modify {g : FileEntry → FileEntry} (hfiles : t'.files = t.files.modify row g) :
    ∀ r ∈ changed t t', r = row := by
  intro r hr
  by_contra hne
  have hentry : t'.entry r = t.entry r := by
    unfold entry
    rw [hfiles, List.getD_eq_getElem?_getD, List.getElem?_modify, List.getD_eq_getElem?_getD]
    simp [Ne.symm hne]
  simp [changed, hentry] at hr

/-! ## What a step does to the span -/

/-- Nothing changed that a view shows, and the span and the timer are as before. -/
theorem Kept.quiet (hk : Kept ⟨t, h⟩)
    (hfiles : t'.files.map FileEntry.visible = t.files.map FileEntry.visible)
    (hdirty : t'.dirty = t.dirty) (htimer : t'.flushTimer = t.flushTimer) :
    Kept ⟨t', h ++ (changed t t').map .wrote ++ []⟩ := by
  obtain ⟨hpending, hrows, harmed⟩ := hk
  have hcount : t'.fileCount = t.fileCount := by
    simpa [fileCount] using congrArg List.length hfiles
  rw [changed_eq_nil hfiles, List.map_nil, List.append_nil, List.append_nil]
  refine ⟨?_, ?_, ?_⟩
  · show Lib.Gathers t'.dirty h
    rw [hdirty]
    exact hpending
  · show Lib.EndsBefore t'.dirty t'.fileCount
    rw [hdirty, hcount]
    exact hrows
  · show t'.dirty ≠ none → t'.flushTimer = true
    rw [hdirty, htimer]
    exact harmed

theorem Kept.same (hk : Kept ⟨t, h⟩) : Kept ⟨t, h ++ (changed t t).map .wrote ++ []⟩ :=
  hk.quiet rfl rfl rfl

theorem dirty_touch (t : TransferModel) (row : Nat) :
    (t.touch row).dirty = Lib.extend t.dirty row := by
  unfold touch
  rcases t.dirty with - | ⟨first, last⟩ <;> rfl

/-- One row is written to and touched. -/
theorem Kept.write (hk : Kept ⟨t, h⟩) (hrow : row < t.fileCount) {g : FileEntry → FileEntry}
    (hfiles : t'.files = t.files.modify row g) (hdirty : t'.dirty = t.dirty) :
    Kept ⟨t'.touch row, h ++ (changed t (t'.touch row)).map .wrote⟩ := by
  have hspan : (t'.touch row).dirty = Lib.extend t.dirty row := by rw [dirty_touch, hdirty]
  refine ⟨?_, ?_, fun _ => rfl⟩
  · show Lib.Gathers (t'.touch row).dirty _
    rw [hspan]
    refine hk.pending.wrote (fun i hi => Lib.within_extend hi) fun r hr => ?_
    rw [changed_of_modify hfiles r hr]
    exact Lib.within_extend_self
  · show Lib.EndsBefore (t'.touch row).dirty t'.files.length
    rw [hspan, hfiles, List.length_modify]
    exact hk.rows.extend hrow

/-- The span is empty, and nothing is left that a view was not told of. -/
theorem Kept.clean (hdirty : t'.dirty = none) (htold : ∀ i, ¬ Lib.Untold i h) : Kept ⟨t', h⟩ := by
  refine ⟨fun i hi => absurd hi (htold i), ?_, fun hne => absurd hdirty hne⟩
  show Lib.EndsBefore t'.dirty t'.fileCount
  rw [hdirty]
  exact Lib.endsBefore_none

theorem Kept.flush (hk : Kept ⟨t, h⟩) (hfiles : t'.files = t.files) (hdirty : t'.dirty = none) :
    Kept ⟨t', h ++ (changed t t').map .wrote ++ t.flushed⟩ := by
  rw [changed_eq_nil (by rw [hfiles]), List.map_nil, List.append_nil]
  exact .clean hdirty fun _ => Lib.not_untold_tell hk.pending

/-! ## The calls -/

theorem kept_begin (direction : Direction) (peerAlias address deviceType fingerprint : QString)
    (files : List FileEntry) :
    Kept ⟨t.begin direction peerAlias address deviceType fingerprint files, h ++ [.all]⟩ :=
  .clean rfl fun _ => Lib.not_untold_all

theorem kept_setState (hk : Kept ⟨t, h⟩) (state : TransferState) (error : QString) :
    Kept ⟨t.setState state error, h ++ (changed t (t.setState state error)).map .wrote ++
      t.emitted (.setState state error)⟩ := by
  simp only [setState, emitted]
  split
  · exact hk.same
  · split
    · exact hk.flush rfl rfl
    · exact hk.quiet rfl rfl rfl

theorem kept_setFileToken (hk : Kept ⟨t, h⟩) (row : Nat) (token : QString) :
    Kept ⟨t.setFileToken row token,
      h ++ (changed t (t.setFileToken row token)).map .wrote ++ []⟩ := by
  refine hk.quiet ?_ rfl rfl
  rw [files_setFileToken]
  exact map_modify_of (f := fun f : FileEntry => { f with token := token }) (fun _ => rfl) _ _

theorem kept_setFileLocalPath (hk : Kept ⟨t, h⟩) (row : Nat) (path : QString) :
    Kept ⟨t.setFileLocalPath row path,
      h ++ (changed t (t.setFileLocalPath row path)).map .wrote ++ []⟩ := by
  unfold setFileLocalPath
  split
  · exact hk.same
  · rename_i hrow
    rw [List.append_nil]
    exact hk.write (Nat.lt_of_not_le hrow) rfl rfl

theorem kept_setFileTransferred (hk : Kept ⟨t, h⟩) (row : Nat) (bytes : Int) :
    Kept ⟨t.setFileTransferred row bytes,
      h ++ (changed t (t.setFileTransferred row bytes)).map .wrote ++ []⟩ := by
  unfold setFileTransferred
  split
  · exact hk.same
  · rename_i hrow
    extract_lets f bytes bytes'
    split
    · exact hk.same
    · rw [List.append_nil]
      exact hk.write (Nat.lt_of_not_le hrow) rfl rfl

/-- The row goes out at once, with all that was waiting. -/
theorem kept_setFileStatus (hk : Kept ⟨t, h⟩) (row : Nat) (status : FileStatus) (error : QString) :
    Kept ⟨t.setFileStatus row status error,
      h ++ (changed t (t.setFileStatus row status error)).map .wrote ++
        if row ≥ t.files.length then [] else (t.touch row).flushed⟩ := by
  unfold setFileStatus
  split
  · exact hk.same
  · rename_i hrow
    extract_lets f t₁
    have hwritten : Kept ⟨t₁.touch row, h ++ (changed t (t₁.touch row)).map .wrote⟩ :=
      hk.write (Nat.lt_of_not_le hrow) rfl rfl
    exact .clean rfl fun _ => Lib.not_untold_tell hwritten.pending

theorem kept_flushTimeout (hk : Kept ⟨t, h⟩) :
    Kept ⟨t.next .flushTimeout,
      h ++ (changed t (t.next .flushTimeout)).map .wrote ++ t.emitted .flushTimeout⟩ := by
  simp only [TransferModel.next, emitted]
  split
  · exact hk.flush rfl rfl
  · exact hk.same

/-- A row number below 0 is out of range too. -/
theorem Kept.ranged (hk : Kept ⟨t, h⟩) {row : Int} {signals : List (Lib.Notice Nat)}
    (hneg : row < 0 → signals = [])
    (hrow : ¬ row < 0 → Kept ⟨t', h ++ (changed t t').map .wrote ++ signals⟩) :
    Kept ⟨if row < 0 then t else t',
      h ++ (changed t (if row < 0 then t else t')).map .wrote ++ signals⟩ := by
  by_cases h0 : row < 0
  · rw [if_pos h0, hneg h0]
    exact hk.same
  · rw [if_neg h0]
    exact hrow h0

theorem Kept.next {w : Watched} (hk : Kept w) (op : Operation) : Kept (w.next op) := by
  obtain ⟨t, h⟩ := w
  cases op with
  | begin direction peerAlias address deviceType fingerprint files =>
    exact kept_begin direction peerAlias address deviceType fingerprint files
  | call c =>
    cases c with
    | begin direction peerAlias address deviceType fingerprint files =>
      exact kept_begin direction peerAlias address deviceType fingerprint files.val
    | setState state error => exact kept_setState hk state error
    | setDestination path => exact hk.quiet rfl rfl rfl
    | setFileToken row token =>
      exact hk.ranged (fun _ => rfl) fun _ => kept_setFileToken hk row.toNat token
    | setFileLocalPath row path =>
      exact hk.ranged (fun _ => rfl) fun _ => kept_setFileLocalPath hk row.toNat path
    | setFileStatus row status error =>
      refine hk.ranged (fun h0 => if_pos h0) fun h0 => ?_
      have hsent := kept_setFileStatus hk row.toNat status error
      simp only [told, emitted, if_neg h0]
      exact hsent
    | setFileTransferred row bytes =>
      exact hk.ranged (fun _ => rfl) fun _ => kept_setFileTransferred hk row.toNat bytes.toInt
    | flushTimeout => exact kept_flushTimeout hk

/-! ## Whole runs -/

theorem kept_of_reached {w : Watched} (h : Lib.Reached watched w) : Kept w := by
  refine h.invariant ?_ fun w op hk _ => hk.next op
  rintro _ rfl
  exact ⟨.nil, Lib.endsBefore_none, fun hne => absurd rfl hne⟩

/-- While a row is waiting, the timer that fires next repaints it. -/
theorem Kept.fires {w : Watched} (hk : Kept w) {row : Nat} (h : Lib.Untold row w.history) :
    ∃ first last, w.model.emitted .flushTimeout = [.span first last] ∧
      first ≤ row ∧ row ≤ last := by
  obtain ⟨first, last, hdirty, hin⟩ := hk.pending row h
  have harmed : w.model.flushTimer = true := hk.armed (by simp [hdirty])
  refine ⟨first, last, ?_, hin⟩
  show (if w.model.flushTimer = true then w.model.flushed else []) = _
  rw [if_pos harmed]
  show Lib.tell w.model.dirty = _
  rw [hdirty]
  rfl

/-- Whatever is called, in any order, and whenever the timer fires. -/
theorem no_repaint_lost (ops : List Operation) :
    let w := ops.foldl Watched.next {}
    Kept w ∧ ∀ row, Lib.Untold row w.history →
      ∃ first last, w.model.emitted .flushTimeout = [.span first last] ∧
        first ≤ row ∧ row ≤ last := by
  have hreached : Lib.Reached watched (ops.foldl Watched.next {}) :=
    Lib.ReachedBy.run_any (S := watched) ops (.start rfl)
  have hk := kept_of_reached hreached
  exact ⟨hk, fun _ h => hk.fires h⟩

end

end TransferModel

end LocalSend
