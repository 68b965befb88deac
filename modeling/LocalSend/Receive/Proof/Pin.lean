import LocalSend.Core.Proof.Guessing
import LocalSend.Receive.Proof.Authority
import LocalSend.Receive.Proof.Lifecycle
import LocalSend.Receive.Proof.Steady

/-!
# Guessing the PIN

Nothing but a prepare-upload whose PIN is looked at changes the table of attempts, and it records
what the comparison said (`step_attempts`). So in any stretch of a run the wrong PINs of an address
are as many as its waits allow (`pin_guesses_bounded`).
-/

set_option autoImplicit false

namespace LocalSend.World

open RateLimiter (GuessMs AheadMs Guessed)

section
variable [Qt] {w v : World} {i : ConnId}

/-- The address of a prepare-upload whose PIN is looked at, and whether it is the right one. -/
def judged (i : ConnId) (w : World) : Option (QString × Bool) :=
  if w.settings.receiveEnabled ∧ w.pending = none ∧ w.sessionId = [] ∧
      w.pinAttempts.allow w.now (w.conns i).peerAddress then
    some ((w.conns i).peerAddress, w.settings.checkPin ((w.conns i).queryValue (str "pin")))
  else none

instance (w : World) (i : ConnId) (data : QByteArray) : Decidable (w.Completes i data) :=
  inferInstanceAs (Decidable (_ ∧ _ ∧ _))

/-- As `judged`, of the request that an event completes. -/
def compared (w : World) : Event → Option (QString × Bool)
  | .readyRead i data =>
    if w.Completes i data ∧
        ((w.heard i data).conns i).path = endpoint Protocol.PathPrepareUpload then
      (w.heard i data).judged i
    else none
  | _ => none

omit [Qt] in
/-- The table of attempts once a comparison is recorded. -/
def counted (w : World) : Option (QString × Bool) → RateLimiter
  | none => w.pinAttempts
  | some (address, true) => w.pinAttempts.recordSuccess address
  | some (address, false) => w.pinAttempts.recordFailure w.now address

theorem prepare_steady (i : ConnId) (w : World) :
    Steady { w with pinAttempts := w.counted (w.judged i) } (w.handlePrepareUpload i) := by
  have unseen : ¬ (w.settings.receiveEnabled = true ∧ w.pending = none ∧ w.sessionId = [] ∧
      w.pinAttempts.allow w.now (w.conns i).peerAddress = true) → w.counted (w.judged i) =
        w.pinAttempts := fun hn => by rw [judged, if_neg hn, counted]
  unfold handlePrepareUpload
  extract_lets address w₁ w₂ info files peer w₃ w₄
  split
  · rename_i hoff
    rw [unseen fun h => hoff h.1]
    exact respond_steady i 403 w
  rename_i hon
  split
  · rename_i hbusy
    rw [unseen fun h => hbusy.elim (fun hp => hp h.2.1) fun hs => hs h.2.2.1]
    exact respond_steady i 409 w
  rename_i hidle
  obtain ⟨hp, hs⟩ := not_or.1 hidle
  split
  · rename_i hblocked
    rw [unseen fun h => hblocked h.2.2.2]
    have hnoted : Steady w w₁ := ⟨rfl, rfl, rfl⟩
    exact hnoted.trans (respond_steady i 429 w₁)
  rename_i hallowed
  have hjudged : w.judged i =
      some (address, w.settings.checkPin ((w.conns i).queryValue (str "pin"))) :=
    if_pos ⟨not_not.1 hon, not_not.1 hp, not_not.1 hs, not_not.1 hallowed⟩
  rw [hjudged]
  split
  · rename_i hwrong
    rw [Bool.not_eq_true] at hwrong
    rw [hwrong]
    exact respond_steady i 401 _
  rename_i hright
  rw [not_not.1 hright]
  change Steady w₂ _
  split
  · exact respond_steady i 400 w₂
  split
  · exact respond_steady i 204 w₂
  split
  · exact respond_steady i 400 w₂
  split
  · exact respond_steady i 403 w₂
  split
  · exact respond_steady i 403 w₂
  obtain ⟨devices, hdevices⟩ := registerPeer_eq info address w₂
  have hparked : Steady w₂ w₄ := by
    simp only [w₄, w₃, hdevices]
    exact ⟨rfl, rfl, rfl⟩
  split
  · exact hparked.trans (accept_steady w₄)
  · exact hparked.trans ⟨rfl, rfl, rfl⟩

/-- An event records the comparison it brings about, and nothing else. -/
theorem step_attempts (h : w.Inv) (e : Event) :
    (w.step e).pinAttempts = w.counted (w.compared e) ∧ w.now ≤ (w.step e).now ∧
      (w.compared e ≠ none → (w.step e).now = w.now) := by
  by_cases hread : ∃ i data, e = .readyRead i data
  · obtain ⟨i, data, rfl⟩ := hread
    by_cases hc : w.Completes i data
    · have hheard : Steady w (w.heard i data) := (listens_steady w i).heard h hc.1 (.refl w) data
      obtain ⟨-, hstep⟩ := hc.reads h
      rw [hstep, compared]
      by_cases hpath : ((w.heard i data).conns i).path = endpoint Protocol.PathPrepareUpload
      · have hroute : (w.heard i data).onRequestReady i = (w.heard i data).handlePrepareUpload i := by
          unfold onRequestReady
          simp only [hpath]
          rfl
        obtain ⟨-, hnow, hattempts⟩ := prepare_steady i (w.heard i data)
        have hcounted : ∀ c, (w.heard i data).counted c = w.counted c := by
          intro c
          unfold counted
          rw [hheard.attempts, hheard.now]
        have hnow : ((w.heard i data).handlePrepareUpload i).now = w.now := hnow.trans hheard.now
        rw [hroute, if_pos ⟨hc, hpath⟩]
        exact ⟨hattempts.trans (hcounted _), Nat.le_of_eq hnow.symm, fun _ => hnow⟩
      · obtain ⟨-, hnow, hattempts⟩ := hheard.trans (onRequestReady_steady i _ hpath)
        rw [if_neg fun h => hpath h.2]
        exact ⟨hattempts, Nat.le_of_eq hnow.symm, fun hne => absurd rfl hne⟩
    · obtain ⟨-, hnow, hattempts⟩ : Steady w (w.step (.readyRead i data)) := by
        by_cases hl : w.live i = true
        · rw [step_incomplete h hl hc]
          exact (listens_steady w i).heard h hl (.refl w) data
        · rw [World.step, if_neg hl]
          exact .refl w
      rw [compared, if_neg fun h => hc h.1]
      exact ⟨hattempts, Nat.le_of_eq hnow.symm, fun hne => absurd rfl hne⟩
  · have hnone : w.compared e = none := by
      cases e with
      | readyRead i data => exact absurd ⟨i, data, rfl⟩ hread
      | _ => rfl
    rw [hnone]
    by_cases htick : ∃ milliseconds, e = .tick milliseconds
    · obtain ⟨milliseconds, rfl⟩ := htick
      exact ⟨rfl, Nat.le_add_right _ _, fun hne => absurd rfl hne⟩
    · obtain ⟨-, hnow, hattempts⟩ := step_steady (fun i data he => hread ⟨i, data, he⟩)
        (fun milliseconds he => htick ⟨milliseconds, he⟩) w
      exact ⟨hattempts, Nat.le_of_eq hnow.symm, fun hne => absurd rfl hne⟩

/-- Only an address that may try again is compared. -/
theorem allow_of_compared (h : w.Inv) {e : Event} {address : QString} {right : Bool}
    (hc : w.compared e = some (address, right)) : w.pinAttempts.allow w.now address = true := by
  cases e with
  | readyRead i data =>
    rw [compared] at hc
    split at hc
    · rename_i hin
      have hheard : Steady w (w.heard i data) :=
        (listens_steady w i).heard h hin.1.1 (.refl w) data
      unfold judged at hc
      split at hc
      · rename_i hjudged
        obtain ⟨rfl, -⟩ := Prod.mk.inj (Option.some.inj hc)
        have hallow := hjudged.2.2.2
        rwa [hheard.attempts, hheard.now] at hallow
      · cases hc
    · cases hc
  | _ => cases hc

/-! ## A stretch of a run -/

/-- The wrong PINs of an address in a run. -/
def guesses (address : QString) : World → List Event → Nat
  | _, [] => 0
  | w, e :: events =>
    (if w.compared e = some (address, false) then 1 else 0) + guesses address (w.step e) events

/-- The event does not bring the right PIN from the address, and a wrong one finds room in the
table. -/
def Guessing (address : QString) (w : World) (e : Event) : Prop :=
  w.compared e ≠ some (address, true) ∧
    (w.compared e = some (address, false) →
      RateLimiter.HasRoom address w.pinAttempts ⟨w.now, address, .recordFailure⟩)

instance (address : QString) (w : World) (e : Event) : Decidable (Guessing address w e) :=
  inferInstanceAs (Decidable (_ ∧ (_ → _)))

theorem step_dated (h : w.Inv) (hd : w.pinAttempts.Dated w.now) (e : Event) :
    (w.step e).pinAttempts.Dated (w.step e).now := by
  obtain ⟨hattempts, hnow, -⟩ := step_attempts h e
  rw [hattempts]
  refine RateLimiter.Dated.later ?_ hnow
  unfold counted
  split
  · exact hd
  · exact hd.recordSuccess _
  · exact hd.recordFailure _

theorem step_guessed {since n : Nat} {address : QString} (h : w.Inv) {e : Event}
    (hok : Guessing address w e) (hg : Guessed since address w.now w.pinAttempts n) :
    Guessed since address (w.step e).now (w.step e).pinAttempts
      (n + if w.compared e = some (address, false) then 1 else 0) := by
  obtain ⟨hattempts, hnow, hsame⟩ := step_attempts h e
  rw [hattempts]
  cases hc : w.compared e with
  | none => exact hg.later hnow
  | some c =>
    obtain ⟨other, right⟩ := c
    rw [hsame (by rw [hc]; exact Option.some_ne_none _)]
    by_cases ho : other = address
    · subst ho
      cases right with
      | true => exact absurd hc hok.1
      | false =>
        rw [if_pos rfl]
        exact hg.fail (allow_of_compared h hc) (hok.2 hc)
    · have hne : some (other, right) ≠ some (address, false) := fun heq =>
        ho (Prod.mk.inj (Option.some.inj heq)).1
      rw [if_neg hne]
      cases right with
      | true => exact hg.recordSuccess ho
      | false => exact hg.recordFailure ho

theorem run_guessed {since : Nat} {address : QString} : ∀ (events : List Event) {w : World} {n : Nat},
    Lib.Reached system w → Lib.Allowed system (Guessing address) w events →
      Guessed since address w.now w.pinAttempts n →
        Guessed since address (events.foldl step w).now (events.foldl step w).pinAttempts
          (n + guesses address w events)
  | [], _, _, _, _, hg => hg
  | e :: events, w, n, h, hok, hg => by
    have hrest := run_guessed events (.next (S := system) e h trivial) hok.2
      (step_guessed (reached_inv h) hok.1 hg)
    rwa [Nat.add_assoc] at hrest

/-- However an address goes about it, and whatever else goes on, each of its wrong PINs costs it
`GuessMs` of the time that passes, but for those that `AheadMs` pays for. -/
theorem pin_guesses_bounded {w₀ : World} (h : w₀.Start) (hempty : w₀.pinAttempts = ⟨∅⟩)
    (before events : List Event) (address : QString)
    (hok : Lib.Allowed system (Guessing address) (before.foldl step w₀) events) :
    GuessMs * guesses address (before.foldl step w₀) events + (before.foldl step w₀).now ≤
      ((before ++ events).foldl step w₀).now + AheadMs := by
  have hdated : ∀ (events : List Event) {w : World}, Lib.Reached system w →
      w.pinAttempts.Dated w.now → (events.foldl step w).pinAttempts.Dated (events.foldl step w).now := by
    intro events
    induction events with
    | nil => exact fun _ hd => hd
    | cons e events ih =>
      exact fun hr hd => ih (.next (S := system) e hr trivial) (step_dated (reached_inv hr) hd e)
  have hreached : Lib.Reached system (before.foldl step w₀) :=
    Lib.ReachedBy.run_any before (.start h)
  have hstart := hdated before (.start h) (hempty ▸ RateLimiter.Dated.empty)
  have hrun := run_guessed events hreached hok (hstart.guessed address)
  rw [Nat.zero_add] at hrun
  rw [List.foldl_append]
  exact hrun.bound

end

/-! ## Guesses one after another -/

section

/-- A derived key that shows what it was derived from. -/
local instance guessedQt : Qt :=
  { Ascii.qt [(Ascii.json oneFile, oneFile)] [] with
    pbkdf2 := fun secret salt _ length => (secret ++ salt ++ List.replicate length 0).take length }

/-- The receiver asks for a PIN. -/
def guardedEvents : List Event := [.startListening, .setPinEnabled true, .setPin (str "4821")]

/-- A prepare-upload with a PIN, on a connection of its own. -/
def guess (i : ConnId) (pin : String) : List Event := [
  .connect (str "10.0.0.2") none,
  .readyRead i (post (prepareTarget ++ ascii ("?pin=" ++ pin)) (Ascii.json oneFile))]

/-- The fifth comes before the wait is over. -/
def fiveGuesses : List Event := guess 0 "0000" ++ guess 1 "0001" ++ guess 2 "0002" ++
  guess 3 "0003" ++ guess 4 "0004" ++ [.tick 1000] ++ guess 5 "0004"

theorem fiveGuesses_bounded : ∃ w : World, guesses (str "10.0.0.2") w fiveGuesses = 5 ∧
    GuessMs * 5 + w.now ≤ (fiveGuesses.foldl step w).now + AheadMs := by
  have hok : Lib.Allowed system (Guessing (str "10.0.0.2")) (guardedEvents.foldl step helloStart)
      fiveGuesses := by decide +kernel
  have hfive : guesses (str "10.0.0.2") (guardedEvents.foldl step helloStart) fiveGuesses = 5 := by
    decide +kernel
  have hbound := pin_guesses_bounded helloStart_start rfl guardedEvents fiveGuesses _ hok
  rw [hfive, List.foldl_append] at hbound
  exact ⟨_, hfive, hbound⟩

end

end LocalSend.World
