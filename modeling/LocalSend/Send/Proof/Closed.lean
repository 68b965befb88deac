import LocalSend.Send.Proof.Pinned
import LocalSend.Send.Proof.Turns

/-!
# What a finished transfer leaves behind

`finished` is emitted once for each transfer, at its end. Nothing is left open then, except where
the answer to the file list leaves nothing to be sent (`Declines`): those three ends restore the
state by hand, and miss the rows or the session.
-/

set_option autoImplicit false

namespace LocalSend.Sender

variable {w : Sender}

section
variable [Qt]

/-- If this is the end of a transfer, it leaves nothing open, and `finished` is emitted once. -/
def Finishes (w : Sender) (e : SenderEvent) : Prop :=
  w.service.busy = true → (w.step e).service.busy = false →
    Closed (w.step e) ∧ (w.step e).finishes = w.finishes + 1

/-- Each transfer that was begun is finished, unless it is still under way. -/
def Counted (w : Sender) : Prop :=
  w.finishes + (if w.service.busy then 1 else 0) = begun w.log

theorem Counted.step {granted : QJsonObject} {e : SenderEvent} (h : Counted w) (ht : w.Tidy)
    (hphased : Phased granted w) (hp : w.Patient e) : Counted (w.step e) := by
  unfold Counted at h ⊢
  cases hb : w.service.busy with
  | false =>
    simp only [hb, Bool.false_eq_true, if_false] at h
    rcases idle_turn ht hb e with ⟨hidle, hsignals, hbegun⟩ | ⟨hasks, hsignals, hbegun⟩
    · simp only [hidle, Bool.false_eq_true, if_false, finishes, hsignals, hbegun]
      exact h
    · simp only [hasks.busy, if_true, finishes, hsignals, hbegun]
      exact congrArg (· + 1) h
  | true =>
    simp only [hb, if_true] at h
    have quiet : ∀ {v : Sender}, v.service.busy = true → v.finishes = w.finishes →
        begun v.log = begun w.log → v.finishes + (if v.service.busy then 1 else 0) = begun v.log := by
      intro v hbusy hfinishes hbegun
      rw [hbusy, hfinishes, hbegun]
      exact h
    cases step_turn ht (hphased hb) hp with
    | holds hservice hsignals hbegun _ _ _ =>
      exact quiet (by rw [hservice]; exact hb) (by rw [finishes, hsignals, finishes]) hbegun
    | asksAgain _ hsignals hbegun hasks _ =>
      exact quiet hasks.busy (by rw [finishes, hsignals, finishes]) hbegun
    | prompts retry hsignals hbegun _ hasks _ =>
      refine quiet hasks.busy ?_ hbegun
      simp [finishes, hsignals, TransferSignal.isFinished]
    | goes _ hgoes _ _ =>
      exact quiet hgoes.busy (by rw [finishes, hgoes.signals, finishes]) hgoes.begun
    | ends hends _ _ =>
      rw [hends.busy, hends.finishes, hends.begun]
      exact h

/-- What holds of a transfer as long as the PIN is submitted only when nothing is waited for. -/
structure Course (w : Sender) : Prop where
  tidy : w.Tidy
  phased : ∃ granted, Phased granted w
  counted : Counted w

theorem Course.step {e : SenderEvent} (h : w.Course) (hp : w.Patient e) : (w.step e).Course := by
  obtain ⟨granted, hphased⟩ := h.phased
  exact ⟨h.tidy.step hp, ⟨_, hphased.step h.tidy hp⟩, h.counted.step h.tidy hphased hp⟩

omit [Qt] in
theorem Start.course (h : w.Start) : w.Course := by
  refine ⟨h.tidy, ⟨[], fun hb => ?_⟩, ?_⟩
  · rw [h.service] at hb
    cases hb
  · simp [Counted, finishes, begun, h.signals, h.service, h.log]

theorem Course.finishes {e : SenderEvent} (h : w.Course) (hp : w.Patient e) :
    w.Finishes e ↔ ¬ w.Declines e := by
  obtain ⟨granted, hphased⟩ := h.phased
  cases hb : w.service.busy with
  | false =>
    refine iff_of_true (fun hbusy => by cases hb.symm.trans hbusy) fun hd => ?_
    unfold Declines at hd
    split at hd
    · obtain ⟨⟨r, hr, -, hs⟩, -⟩ := hd
      cases hb.symm.trans (h.tidy.waited _ r hr (by rw [hs]; rfl)).2
    · exact hd
  | true =>
    cases step_turn h.tidy (hphased hb) hp with
    | holds hservice _ _ _ _ hd =>
      refine iff_of_true (fun _ hidle => ?_) hd
      rw [hservice, hb] at hidle
      cases hidle
    | asksAgain _ _ _ hasks hd =>
      exact iff_of_true (fun _ hidle => by cases hasks.busy.symm.trans hidle) hd
    | prompts _ _ _ _ hasks hd =>
      exact iff_of_true (fun _ hidle => by cases hasks.busy.symm.trans hidle) hd
    | goes _ hgoes _ hd =>
      exact iff_of_true (fun _ hidle => by cases hgoes.busy.symm.trans hidle) hd
    | ends hends hclosed _ =>
      rw [← hclosed]
      exact ⟨fun hall => (hall hb hends.busy).1, fun hc _ _ => ⟨hc, hends.finishes⟩⟩

/-- `finished` is emitted once for each transfer, and its end leaves nothing open if and only if it
is not one of the three that `Declines` names. -/
theorem finishes_iff (h : Lib.ReachedBy system Patient w) :
    Counted w ∧ ∀ e, w.Patient e → (w.Finishes e ↔ ¬ w.Declines e) := by
  have hcourse : w.Course :=
    h.invariant (I := Course) (fun _ hs => Start.course hs) fun _ _ hi hok => hi.step hok
  exact ⟨hcourse.counted, fun _ hp => hcourse.finishes hp⟩

end

/-! ## A laptop that has everything already -/

/-- The user sends a file to a laptop, which is asked whether it takes it. -/
def asksLaptop : List SenderEvent := [
  .start true,
  .datagram (announcement (str "http")) (str "10.0.0.3"),
  .hold 0,
  .sendFiles { DeviceInfo.fromPayload (announcement (str "http")) with
    address := str "10.0.0.3" } [str "/d/a.txt"],
  .connects 0 [] false]

section

local instance closedQt : Qt := Ascii.qt [] []

theorem asksLaptop_allowed :
    Lib.Allowed system Patient (fresh .trusting documentsFolder) asksLaptop :=
  ⟨trivial, trivial, trivial, trivial, trivial, trivial⟩

/-- The laptop is out of reach, and nothing is left open. -/
theorem unreachable_finished : ∃ (w : Sender) (e : SenderEvent), w.service.busy = true ∧
    (w.step e).service.busy = false ∧ w.Finishes e := by
  have h := Lib.ReachedBy.run asksLaptop (.start (fresh_start _ _)) asksLaptop_allowed
  refine ⟨asksLaptop.foldl step (fresh .trusting documentsFolder), .fails 0 [],
    by decide +kernel, by decide +kernel, ?_⟩
  exact ((finishes_iff h).2 (.fails 0 []) trivial).2 not_false

/-- The laptop answers that it has the file already: its row is left waiting. -/
theorem row_left_waiting : ∃ w : Sender, Lib.ReachedBy system Patient w ∧
    ¬ w.Finishes (.answered 0 false 204 [] []) := by
  have h := Lib.ReachedBy.run asksLaptop (.start (fresh_start _ _)) asksLaptop_allowed
  refine ⟨_, h, fun hfinishes => ?_⟩
  have hrows := (hfinishes (by decide +kernel) (by decide +kernel)).1.rows
  have hwaiting : ((asksLaptop.foldl step (fresh .trusting documentsFolder)).step
      (.answered 0 false 204 [] [])).transfer.files.any (fun f => f.status = .waiting) = true := by
    decide +kernel
  obtain ⟨f, hf, hs⟩ := List.any_eq_true.1 hwaiting
  exact (hrows f hf).1 (of_decide_eq_true hs)

end

end LocalSend.Sender
