import LocalSend.Lib.Cooldown
import LocalSend.Qt.Ascii
import LocalSend.Send.Proof.Listed

/-!
# How often announcements are answered

The source address of an announcement is whatever its sender wrote there. `respondTo` answers an
address once in `ResponseCooldownMs`, as far as its table remembers, which is a table of
`Lib.Stamps`; so an address gets two answers in a window, and one more for every 254 that go to
others (`reflection_bounded`).
-/

set_option autoImplicit false

namespace LocalSend

/-- The datagram asks to be answered. -/
def SenderEvent.isAnnouncement : SenderEvent → Bool
  | .datagram payload _ => (payload.value (str "announce")).toBool false
  | _ => false

/-- The address an announcement was answered to. -/
def LogEntry.answer (e : LogEntry) : Option QString :=
  match e.what with
  | .answered address _ => some address
  | _ => none

namespace Sender

/-- The addresses that were answered, one after the other. -/
def answers (w : Sender) : List QString := w.log.filterMap LogEntry.answer

variable {w v : Sender}

theorem Emits.answers {A : Outbound → Prop} (h : Emits A w v)
    (hA : ∀ address fingerprint, ¬ A (.answered address fingerprint)) : v.answers = w.answers := by
  obtain ⟨l, hl, hall⟩ := h.log
  have hnone : l.filterMap LogEntry.answer = [] := by
    refine List.filterMap_eq_nil_iff.2 fun e he => ?_
    have ha := (hall e he).1
    unfold LogEntry.answer
    cases hw : e.what with
    | answered address fingerprint => exact absurd (hw ▸ ha) (hA address fingerprint)
    | _ => rfl
  unfold Sender.answers
  rw [hl, List.filterMap_append, hnone, List.append_nil]

variable [Qt]

/-- Only a datagram is answered. -/
theorem Sends.datagram {e : SenderEvent} {address fingerprint : QString}
    (h : w.Sends e (.answered address fingerprint)) :
    ∃ payload source, e = .datagram payload source := by
  cases h with
  | probe h => exact h.elim
  | answer => exact ⟨_, _, rfl⟩
  | ask _ h => exact h.elim
  | askAgain _ _ h => exact h.elim
  | upload _ h => exact h.elim
  | cancel h => exact h.elim

theorem respondTo_answers {peer : DeviceInfo} (hs : w.discovery.socket = true)
    (hc : w.isCooling peer.address = false) :
    (w.respondTo peer).answers = w.answers ++ [peer.address] ∧
      (w.respondTo peer).discovery.lastResponse =
        Lib.Stamps.serve MaxTrackedResponders w.now w.discovery.lastResponse peer.address ∧
      (w.respondTo peer).now = w.now := by
  unfold respondTo postRegister
  rw [if_neg (by simp [hc])]
  simp only [hs, if_true]
  split
  · refine ⟨?_, rfl, rfl⟩
    simp [Sender.answers, emit, LogEntry.answer]
  · refine ⟨?_, rfl, rfl⟩
    simp [Sender.answers, emit, post, setReply, LogEntry.answer]

theorem step_lastResponse {e : SenderEvent} (he : ∀ payload address, e ≠ .datagram payload address)
    (w : Sender) : (w.step e).discovery.lastResponse = w.discovery.lastResponse := by
  cases hturn : e.isTurn with
  | false => exact (step_runs hturn w).lastResponse
  | true =>
    cases e with
    | datagram payload address => exact absurd rfl (he payload address)
    | burst => exact (burst_runs w).lastResponse
    | start binds => exact (startDiscovery_same binds w).2
    | stop =>
      simp only [step, stopDiscovery]
      split <;> rfl
    | refresh binds =>
      simp only [step, refresh]
      split
      · exact (announce_runs w).lastResponse
      · exact (startDiscovery_same binds w).2
    | tick ms => rfl
    | _ => cases hturn

/-- An announcement comes in: it is there while the socket is open. -/
def hears (w : Sender) (e : SenderEvent) : Bool := w.discovery.socket && e.isAnnouncement

/-- How many announcements come in. -/
def heard (w : Sender) : List SenderEvent → Nat
  | [] => 0
  | e :: events => (w.hears e).toNat + (w.step e).heard events

theorem heard_append (w : Sender) (events : List SenderEvent) (e : SenderEvent) :
    w.heard (events ++ [e]) = w.heard events + ((events.foldl step w).hears e).toNat := by
  induction events generalizing w with
  | nil => exact Nat.add_comm _ _
  | cons d events ih => rw [List.cons_append, heard, heard, ih, List.foldl_cons, Nat.add_assoc]

/-- A step answers nobody, or one address that is not cooling; and that takes an announcement. -/
theorem step_answers (w : Sender) (e : SenderEvent) :
    ((w.step e).answers = w.answers ∧
      (w.step e).discovery.lastResponse = w.discovery.lastResponse) ∨
    ∃ address, w.hears e = true ∧ (w.step e).answers = w.answers ++ [address] ∧
      Lib.Stamps.isCooling ResponseCooldownMs w.now w.discovery.lastResponse address = false ∧
      (w.step e).discovery.lastResponse =
        Lib.Stamps.serve MaxTrackedResponders w.now w.discovery.lastResponse address ∧
      (w.step e).now = w.now := by
  by_cases he : ∃ payload address, e = .datagram payload address
  · obtain ⟨payload, address, rfl⟩ := he
    simp only [step]
    split
    · rename_i hsocket
      unfold handlePayload
      extract_lets peer peer' v
      split
      · exact .inl ⟨rfl, rfl⟩
      · split
        · rename_i hannounce
          cases hc : v.isCooling peer'.address with
          | true =>
            have hsame : v.respondTo peer' = v := if_pos hc
            rw [hsame]
            exact .inl ⟨rfl, rfl⟩
          | false =>
            obtain ⟨hanswers, htable, hnow⟩ := respondTo_answers (w := v) hsocket hc
            have hhears : w.hears (.datagram payload address) = true := by
              rw [hears, hsocket]
              exact hannounce
            exact .inr ⟨address, hhears, hanswers, hc, htable, hnow⟩
        · exact .inl ⟨rfl, rfl⟩
    · exact .inl ⟨rfl, rfl⟩
  · refine .inl ⟨(step_emits w e).1.answers fun address fingerprint ha => ?_, ?_⟩
    · exact he ha.datagram
    · exact step_lastResponse (fun payload address h => he ⟨payload, address, h⟩) w

theorem le_step_now (w : Sender) (e : SenderEvent) : w.now ≤ (w.step e).now := by
  cases hturn : e.isTurn with
  | false => exact Nat.le_of_eq (step_runs hturn w).now.symm
  | true =>
    cases e with
    | datagram payload address =>
      simp only [step]
      split
      · exact Nat.le_of_eq (handlePayload_runs payload address w).now.symm
      · exact Nat.le_refl _
    | burst => exact Nat.le_of_eq (burst_runs w).now.symm
    | start binds => exact Nat.le_of_eq (startDiscovery_same binds w).1.symm
    | stop =>
      simp only [step, stopDiscovery]
      split <;> exact Nat.le_refl _
    | refresh binds =>
      simp only [step, refresh]
      split
      · exact Nat.le_of_eq (announce_runs w).now.symm
      · exact Nat.le_of_eq (startDiscovery_same binds w).1.symm
    | tick ms => exact Nat.le_add_right _ _
    | _ => cases hturn

theorem le_run_now (events : List SenderEvent) (w : Sender) :
    w.now ≤ (events.foldl step w).now := by
  induction events generalizing w with
  | nil => exact Nat.le_refl _
  | cons e events ih => exact Nat.le_trans (le_step_now w e) (ih _)

/-! ## Windows -/

/-- What a run adds to the answers: no more than announcements came in; and in a window, the tally of
an address. -/
theorem run_answers (address : QString) (w : Sender) (events : List SenderEvent) :
    ∃ l, (events.foldl step w).answers = w.answers ++ l ∧
      l.length ≤ w.heard events ∧
      ((events.foldl step w).now - w.now < ResponseCooldownMs →
        Lib.Tally MaxTrackedResponders w.now address (events.foldl step w).discovery.lastResponse
          (l.countP (· ≠ address)) (l.count address)) := by
  induction events using List.reverseRecOn with
  | nil => exact ⟨[], (List.append_nil _).symm, Nat.le_refl _, fun _ => .unserved⟩
  | append_singleton events e ih =>
    obtain ⟨l, hl, hle, htally⟩ := ih
    generalize hv : events.foldl step w = v at hl htally
    have hsince : w.now ≤ v.now := hv ▸ le_run_now events w
    rw [List.foldl_append, List.foldl_cons, List.foldl_nil, heard_append, hv]
    have hnow := le_step_now v e
    rcases step_answers v e with ⟨hsame, htable⟩ | ⟨a, hhears, hadds, hc, htable, hsteps⟩
    · refine ⟨l, hsame.trans hl, by omega, fun hwindow => ?_⟩
      rw [htable]
      exact htally (by omega)
    · refine ⟨l ++ [a], by rw [hadds, hl, List.append_assoc], ?_, fun hwindow => ?_⟩
      · simp only [List.length_append, List.length_singleton, hhears, Bool.toNat_true]
        omega
      · have hbefore : v.now - w.now < ResponseCooldownMs := by omega
        rw [htable, List.countP_append, List.count_append]
        by_cases ha : a = address
        · subst ha
          simpa using (htally hbefore).same hsince hbefore hc
        · simpa [ha] using (htally hbefore).other (by decide) ha

/-- In a window shorter than the cooldown an address gets two answers, and one for every 254 that
others get; and there is no answer without an announcement that came in. -/
theorem reflection_bounded (w : Sender) (events : List SenderEvent) (address : QString) :
    let sent := (events.foldl step w).answers.drop w.answers.length
    ((events.foldl step w).now - w.now < ResponseCooldownMs →
      sent.count address ≤ 2 + sent.countP (· ≠ address) / 254) ∧
    sent.length ≤ w.heard events := by
  intro sent
  obtain ⟨l, hl, hle, htally⟩ := run_answers address w events
  have hsent : sent = l := by
    simp only [sent, hl, List.drop_left]
  rw [hsent]
  refine ⟨fun hwindow => ?_, hle⟩
  have hbound := (htally hwindow).bound (by decide)
  have hfewer : l.countP (· ≠ address) / (MaxTrackedResponders - 1) ≤
      l.countP (· ≠ address) / 254 := Nat.div_le_div_left (by decide) (by decide)
  omega

end Sender

namespace Sender

section

local instance reflectQt : Qt := Ascii.qt [] []

def asking (fingerprint : String) : QJsonObject := [
  (str "alias", .string (str "TV")),
  (str "announce", .bool true),
  (str "fingerprint", .string (str fingerprint))]

/-- Three announcements from one address, nine seconds apart, and one from another. -/
def announcements : List SenderEvent := [
  .datagram (asking "AB") (str "10.0.0.3"),
  .datagram (asking "CD") (str "10.0.0.4"),
  .tick 9000,
  .datagram (asking "AB") (str "10.0.0.3"),
  .datagram (asking "EF") (str "10.0.0.3")]

/-- The one address is answered once. -/
theorem announcer_answered_once :
    let w := (fresh .trusting fun _ => none).step (.start true)
    let sent := (announcements.foldl step w).answers.drop w.answers.length
    sent = [str "10.0.0.3", str "10.0.0.4"] ∧ sent.count (str "10.0.0.3") ≤ 2 := by
  intro w sent
  have hsent : sent = [str "10.0.0.3", str "10.0.0.4"] := by decide +kernel
  have hbound := (reflection_bounded w announcements (str "10.0.0.3")).1 (by decide +kernel)
  have hothers : sent.countP (· ≠ str "10.0.0.3") = 1 := by decide +kernel
  refine ⟨hsent, Nat.le_trans hbound ?_⟩
  change 2 + sent.countP (· ≠ str "10.0.0.3") / 254 ≤ 2
  rw [hothers]

end

end Sender

end LocalSend
