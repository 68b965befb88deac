import LocalSend.Qt.Ascii
import LocalSend.Send.Proof.Listed

/-!
# A search that was stopped

`Stopped` is the sending side, with a record of what has come about since `stop` was called last.
`stop` closes the socket and empties the list, and leaves requests, sweeps and scheduled
announcements as they are. So the list stays empty exactly as long as nobody introduces itself, be it
to our own `/register` or in a reply (`shows_nobody_iff`).
-/

set_option autoImplicit false

namespace LocalSend

/-- An announcement asks the devices that were entered by hand again. -/
def ReplySlot.isRefreshed : ReplySlot → Bool
  | .refreshed => true
  | _ => false

def SenderEvent.isStop : SenderEvent → Bool
  | .stop => true
  | _ => false

/-- The search is started or stopped. -/
def SenderEvent.isSwitch : SenderEvent → Bool
  | .start _ | .stop | .refresh _ => true
  | _ => false

namespace Sender

variable [Qt] {w : Sender} {e : SenderEvent}

/-- The device that introduces itself, though our socket is closed. -/
def introduces (w : Sender) : SenderEvent → Option DeviceInfo
  | .register payload address => w.stranger payload address
  | .answered id error _ _ body =>
    match w.replies id with
    | some r => if r.sent then w.introduced r error body else none
    | none => none
  | _ => none

/-- There are more rows after the event. -/
def grows (w : Sender) (e : SenderEvent) : Bool :=
  w.devices.devices.length < (w.step e).devices.devices.length

/-- What was there before the request number `n` goes on: an announcement that was scheduled, a
request, or one that such an announcement makes. -/
def isLeftover (w : Sender) (n : ReplyId) : SenderEvent → Bool
  | .connects id .. | .answered id .. | .fails id .. =>
    id < n || (w.replies id).any (·.request.slot.isRefreshed)
  | .announceTimer | .burst => true
  | _ => false

/-- The user begins a sweep or a lookup. -/
def asks (w : Sender) : SenderEvent → Bool
  | .scanSubnet mine => ¬ w.discovery.scanning ∧ scanTargets mine ≠ []
  | .addDeviceAt host _ => w.discovery.manualPending = 0 ∧ host ≠ []
  | _ => false

/-! ## Rows that come -/

theorem step_introduces {d : DeviceInfo} (h : w.introduces e = some d) :
    (w.step e).devices = (w.devices.upsert w.known w.now d).2 := by
  have hcalls : w.calls e = [.upsert w.known w.now d] := by
    cases e with
    | register payload address =>
      simp only [introduces] at h
      simp only [calls, h, offer]
    | answered id error status errorString body =>
      simp only [introduces] at h
      cases hr : w.replies id with
      | none =>
        rw [hr] at h
        cases h
      | some r =>
        simp only [hr] at h
        split at h
        · rename_i hsent
          simp only [calls, hr, hsent, if_true, h, offer]
        · cases h
    | _ => cases h
  rw [step_devices, hcalls]
  rfl

theorem step_sublist (hsocket : w.discovery.socket = false) (h : w.introduces e = none) :
    (w.step e).devices.devices.Sublist w.devices.devices := by
  have hpruned : (w.listing w.pruning).devices.Sublist w.devices.devices := List.filter_sublist
  have either : ∀ {p : Prop} [Decidable p] {calls : List DeviceModel.Call},
      (w.listing calls).devices.Sublist w.devices.devices →
      (w.listing (if p then calls else [])).devices.Sublist w.devices.devices := by
    intro p _ calls hcalls
    split
    · exact hcalls
    · exact List.Sublist.refl _
  rw [step_devices]
  cases e with
  | datagram payload address =>
    simp only [calls, hsocket, Bool.false_eq_true, if_false]
    exact List.Sublist.refl _
  | register payload address =>
    simp only [introduces] at h
    simp only [calls, h]
    exact List.Sublist.refl _
  | answered id error status errorString body =>
    simp only [introduces] at h
    simp only [calls]
    cases hr : w.replies id with
    | none => exact List.Sublist.refl _
    | some r =>
      simp only [hr] at h ⊢
      split at h
      · rw [h]
        exact either (List.Sublist.refl _)
      · rename_i hsent
        rw [if_neg hsent]
        exact List.Sublist.refl _
  | announceTimer => exact either hpruned
  | burst =>
    simp only [calls]
    split
    · exact List.Sublist.refl _
    · exact hpruned
  | start binds => exact either hpruned
  | stop => exact either (List.nil_sublist _)
  | refresh binds => exact either hpruned
  | _ => exact List.Sublist.refl _

/-- There are more rows if and only if a device introduces itself that appears. -/
theorem grows_iff (hsocket : w.discovery.socket = false) :
    w.grows e = true ↔ ∃ d ∈ w.introduces e, w.devices.Appears w.known d := by
  have hcount : ∀ m : DeviceModel, m.fingerprints.length = m.devices.length := fun m =>
    List.length_map ..
  unfold grows
  rw [decide_eq_true_eq]
  cases h : w.introduces e with
  | none =>
    have hle := (step_sublist hsocket h).length_le
    simp only [Option.not_mem_none, false_and, exists_false, iff_false]
    omega
  | some d =>
    simp only [Option.mem_some_iff, exists_eq_left']
    rw [step_introduces h, ← hcount, ← hcount]
    constructor
    · intro hlt
      by_contra hnot
      have hle := (DeviceModel.subperm_upsert hnot w.now).length_le
      omega
    · intro happears
      have hlength := (happears.perm w.now).length_eq
      rw [List.length_cons] at hlength
      omega

/-! ## Whether it is on -/

/-- Only `start`, `stop` and `refresh` turn the search on or off. -/
theorem step_on (he : e.isSwitch = false) (w : Sender) :
    (w.step e).discovery.running = w.discovery.running ∧
      (w.step e).discovery.socket = w.discovery.socket := by
  cases hturn : e.isTurn with
  | false =>
    have hruns := step_runs hturn w
    exact ⟨hruns.running, hruns.socket⟩
  | true =>
    cases e with
    | datagram payload address =>
      simp only [step]
      split
      · have hruns := handlePayload_runs payload address w
        exact ⟨hruns.running, hruns.socket⟩
      · exact ⟨rfl, rfl⟩
    | burst => exact ⟨(burst_runs w).running, (burst_runs w).socket⟩
    | tick ms => exact ⟨rfl, rfl⟩
    | start => cases he
    | stop => cases he
    | refresh => cases he
    | _ => cases hturn

theorem startDiscovery_running (binds : Bool) (w : Sender) :
    (w.startDiscovery binds).discovery.running = true := by
  unfold startDiscovery
  split
  · assumption
  · cases binds with
    | false => rfl
    | true => exact (announce_runs _).running

end Sender

/-- The sending side, and what has come about since `stop` was called last. -/
structure Stopped where
  sender : Sender
  /-- The number of the first request after it, until the search is on again. -/
  since : Option ReplyId
  /-- The user has begun a sweep or a lookup. -/
  asked : Bool
  /-- Something left over from before has put in a row. -/
  intruded : Bool

namespace Stopped

open Sender

section
variable [Qt]

def next (s : Stopped) (e : SenderEvent) : Stopped :=
  match e with
  | .stop => ⟨s.sender.step e, some s.sender.nextReply, false, false⟩
  | .start _ => ⟨s.sender.step e, none, false, false⟩
  | .refresh _ => ⟨s.sender.step e, none, false, false⟩
  | _ => ⟨s.sender.step e, s.since, s.asked || s.sender.asks e,
    s.intruded || (s.since.any (s.sender.isLeftover · e) && s.sender.grows e)⟩

def system : Lib.System Stopped SenderEvent :=
  ⟨fun s => s.sender.Start ∧ s.since = none ∧ s.asked = false ∧ s.intruded = false, next⟩

/-- While it is stopped nothing that is left over puts in a row, and nobody is listed as long as the
user has not asked. -/
def ShowsNobody (s : Stopped) : Prop :=
  s.since.isSome = true →
    s.intruded = false ∧ (s.asked = false → s.sender.devices.devices = [])

/-- What is stopped was on, or listed nobody; and while it is stopped, a device that is not listed
introduces itself only after the user has asked, and not in the reply to a request left over. -/
def Heeds (s : Stopped) (e : SenderEvent) : Prop :=
  (e.isStop = true → s.sender.discovery.running = true ∨ s.sender.devices.devices = []) ∧
  ∀ n ∈ s.since, ∀ d ∈ s.sender.introduces e, s.sender.devices.Appears s.sender.known d →
    s.asked = true ∧ s.sender.isLeftover n e = false

instance (s : Stopped) (e : SenderEvent) : Decidable (s.Heeds e) :=
  inferInstanceAs (Decidable (_ ∧ _))

/-- It is off, and an app that is off has closed its socket. -/
structure Inv (s : Stopped) : Prop where
  off : s.since.isSome = true → s.sender.discovery.running = false
  closed : s.sender.discovery.running = false → s.sender.discovery.socket = false

variable {s : Stopped}

theorem next_same {e : SenderEvent} (he : e.isSwitch = false) :
    s.next e = ⟨s.sender.step e, s.since, s.asked || s.sender.asks e,
      s.intruded || (s.since.any (s.sender.isLeftover · e) && s.sender.grows e)⟩ := by
  cases e <;> first | rfl | cases he

theorem Inv.start (h0 : system.start s) : s.Inv := by
  obtain ⟨hstart, hsince, -, -⟩ := h0
  refine ⟨?_, fun _ => ?_⟩
  · simp [hsince]
  · rw [hstart.discovery]

theorem Inv.step (h : s.Inv) (e : SenderEvent) : (s.next e).Inv := by
  have started : ∀ binds, (s.sender.startDiscovery binds).discovery.running = false →
      (s.sender.startDiscovery binds).discovery.socket = false := by
    intro binds hoff
    cases (startDiscovery_running binds s.sender).symm.trans hoff
  cases hswitch : e.isSwitch with
  | false =>
    obtain ⟨hrunning, hsocket⟩ := step_on hswitch s.sender
    rw [next_same hswitch]
    refine ⟨?_, ?_⟩
    · simpa only [hrunning] using h.off
    · simpa only [hrunning, hsocket] using h.closed
  | true =>
    cases e with
    | start binds => exact ⟨fun hsome => Bool.noConfusion hsome, started binds⟩
    | stop =>
      simp only [next, Sender.step, stopDiscovery]
      split
      · rename_i hoff
        exact ⟨fun _ => eq_false_of_ne_true hoff, h.closed⟩
      · exact ⟨fun _ => rfl, fun _ => rfl⟩
    | refresh binds =>
      refine ⟨fun hsome => Bool.noConfusion hsome, ?_⟩
      simp only [next, Sender.step, refresh]
      split
      · rename_i hon
        intro hoff
        cases ((announce_runs s.sender).running.trans hon).symm.trans hoff
      · exact started binds
    | _ => cases hswitch

theorem stop_iff (s : Stopped) : (s.next .stop).ShowsNobody ↔ s.Heeds .stop := by
  have hheeds : s.Heeds .stop ↔
      s.sender.discovery.running = true ∨ s.sender.devices.devices = [] := by
    simp [Heeds, introduces, SenderEvent.isStop]
  rw [hheeds]
  simp only [ShowsNobody, next, Sender.step, stopDiscovery, Option.isSome_some, true_and,
    true_implies]
  by_cases hrun : s.sender.discovery.running = true
  · simp [hrun, DeviceModel.clear]
  · simp [hrun]

/-- Exactly the events that heed this keep the list empty. -/
theorem ShowsNobody.step_iff (h : s.ShowsNobody) (hinv : s.Inv) (e : SenderEvent) :
    (s.next e).ShowsNobody ↔ s.Heeds e := by
  cases hswitch : e.isSwitch with
  | true =>
    cases e with
    | stop => exact stop_iff s
    | start binds => exact iff_of_true nofun ⟨nofun, fun n _ d hd => by cases hd⟩
    | refresh binds => exact iff_of_true nofun ⟨nofun, fun n _ d hd => by cases hd⟩
    | _ => cases hswitch
  | false =>
    have hstop : e.isStop = false := by cases e <;> first | rfl | cases hswitch
    rw [next_same hswitch]
    cases hs : s.since with
    | none =>
      refine iff_of_true nofun ⟨fun hstops => ?_, fun n hn => ?_⟩
      · cases hstop.symm.trans hstops
      · rw [hs] at hn
        cases hn
    | some n =>
      have hon : s.since.isSome = true := by rw [hs]; rfl
      obtain ⟨hintruded, hnobody⟩ := h hon
      have hsocket := hinv.closed (hinv.off hon)
      have hheeds : s.Heeds e ↔ ∀ d ∈ s.sender.introduces e,
          s.sender.devices.Appears s.sender.known d → s.asked = true ∧ s.sender.isLeftover n e = false := by
        simp [Heeds, hstop, hs]
      rw [hheeds]
      simp only [ShowsNobody, Option.isSome_some, true_implies, Option.any_some, hintruded,
        Bool.false_or]
      cases hgrows : s.sender.grows e with
      | false =>
        have hnew : ∀ d ∈ s.sender.introduces e, ¬ s.sender.devices.Appears s.sender.known d := by
          intro d hd happears
          cases hgrows.symm.trans ((grows_iff hsocket).2 ⟨d, hd, happears⟩)
        refine iff_of_true ⟨Bool.and_false _, fun hasked => ?_⟩
          fun d hd happears => absurd happears (hnew d hd)
        have hempty := hnobody (Bool.or_eq_false_iff.1 hasked).1
        simpa [grows, hempty] using hgrows
      | true =>
        obtain ⟨d, hd, happears⟩ := (grows_iff hsocket).1 hgrows
        have hlisted : (s.sender.step e).devices.devices ≠ [] := by
          intro hempty
          simp [grows, hempty] at hgrows
        have hasks : s.sender.asks e = false := by cases e <;> first | rfl | cases hd
        rw [Bool.and_true, hasks, Bool.or_false]
        constructor
        · rintro ⟨hleft, hasked⟩ - - -
          refine ⟨eq_true_of_ne_false fun hnot => hlisted (hasked hnot), hleft⟩
        · intro hheeds
          obtain ⟨hasked, hleft⟩ := hheeds d hd happears
          refine ⟨hleft, fun hnot => ?_⟩
          cases hasked.symm.trans hnot

theorem Inv.run {events : List SenderEvent} (h : s.Inv) : (events.foldl next s).Inv := by
  induction events generalizing s with
  | nil => exact h
  | cons e events ih => exact ih (h.step e)

/-- A stopped search shows nobody, all along a run, if and only if the events of the run heed what
it takes. -/
theorem shows_nobody_iff {events : List SenderEvent} (h0 : system.start s) :
    (∀ before, before <+: events → (before.foldl next s).ShowsNobody) ↔
      Lib.Allowed system Heeds s events := by
  have hshows : s.ShowsNobody := by
    intro hon
    rw [h0.2.1] at hon
    cases hon
  have hstep : ∀ (s : Stopped) e, s.ShowsNobody ∧ s.Inv →
      ((s.next e).ShowsNobody ∧ (s.next e).Inv ↔ s.Heeds e) := by
    intro s e h
    rw [← h.1.step_iff h.2 e]
    exact ⟨And.left, fun hnext => ⟨hnext, h.2.step e⟩⟩
  have hall := Lib.always_iff_allowed (S := system) hstep ⟨hshows, .start h0⟩ events
  rw [← hall]
  exact forall₂_congr fun before _ => ⟨fun h => ⟨h, (Inv.start h0).run⟩, And.left⟩

end

/-! ## A television that is slow to answer -/

/-- A television that announces itself. -/
def television : QJsonObject := [
  (str "alias", .string (str "TV")),
  (str "announce", .bool true),
  (str "fingerprint", .string (str "AB12"))]

section

local instance stoppedQt : Qt := Ascii.qt [(ascii "television", television)] []

/-- The search has just been stopped, and the television has not answered yet. -/
def slowTelevision : List SenderEvent := [
  .start true,
  .datagram television (str "10.0.0.3"),
  .connects 0 [] false,
  .stop]

/-- It fails to answer, and nobody is listed. -/
theorem silence_kept : ∃ s : Stopped, s.since = some 1 ∧ s.ShowsNobody := by
  let first : Stopped := ⟨fresh .trusting fun _ => none, none, false, false⟩
  let events : List SenderEvent := slowTelevision ++ [.fails 0 []]
  have hstart : system.start first := ⟨fresh_start _ _, rfl, rfl, rfl⟩
  have hsince : (events.foldl next first).since = some 1 := by decide +kernel
  have hheeds : Lib.Allowed system Heeds first events := by decide +kernel
  exact ⟨_, hsince, (shows_nobody_iff hstart).2 hheeds events (List.prefix_refl _)⟩

/-- It answers, and is listed. -/
theorem late_reply_listed : ∃ (s : Stopped) (events : List SenderEvent), system.start s ∧
    (events.foldl next s).since = some 1 ∧ (events.foldl next s).asked = false ∧
    ¬ (events.foldl next s).ShowsNobody := by
  refine ⟨⟨fresh .trusting fun _ => none, none, false, false⟩,
    slowTelevision ++ [.answered 0 false 200 [] (ascii "television")],
    ⟨fresh_start _ _, rfl, rfl, rfl⟩, by decide +kernel, by decide +kernel, fun hshows => ?_⟩
  have hlisted := (hshows (by decide +kernel)).2 (by decide +kernel)
  revert hlisted
  decide +kernel

end

end Stopped

end LocalSend
