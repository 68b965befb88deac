import LocalSend.Qt.Ascii
import LocalSend.Send.Proof.Emits

/-!
# Contact with a blocked device

Every entry of the log carries the trust record of its moment. `Outbound.contact` is the fingerprint
that made the app send something to its holder; a probe of an address and a notice that a transfer
is cancelled have none. A request is contact twice: when it is posted, and when it has connected and
leaves the device, which can be much later.
-/

set_option autoImplicit false

namespace LocalSend

/-- The peer of a request that introduces this device or is about files, by its fingerprint. -/
def QNetworkRequest.contact : QNetworkRequest → Option QString
  | ⟨_, _, _, .pin fingerprint, .introduction _, _⟩ => some fingerprint
  | ⟨_, _, _, .pin fingerprint, .fileList _ _, _⟩ => some fingerprint
  | ⟨_, _, _, .pin fingerprint, .fileBytes .., _⟩ => some fingerprint
  | _ => none

/-- The fingerprint a peer presented itself with, and was contacted for. -/
def Outbound.contact : Outbound → Option QString
  | .announced => none
  | .answered _ fingerprint => some fingerprint
  | .posted r => r.contact
  | .sent r _ => r.contact

namespace Sender

variable {w : Sender}

theorem Probing.contact {o : Outbound} (h : Probing o) : o.contact = none := by
  cases o with
  | announced => rfl
  | answered address fingerprint => exact h.elim
  | sent r certificate => exact h.elim
  | posted r =>
    obtain ⟨scheme, host, port, policy, content, slot⟩ := r
    obtain ⟨hpolicy, ⟨body, hcontent⟩, -⟩ := h
    simp only at hpolicy hcontent
    rw [hpolicy, hcontent]
    rfl

theorem Answering.contact {peer : DeviceInfo} {o : Outbound} (h : Answering peer o) :
    o.contact = some peer.fingerprint := by
  cases o with
  | announced => exact h.elim
  | answered address fingerprint => exact congrArg some h.2
  | sent r certificate => exact h.elim
  | posted r =>
    obtain ⟨body, rfl⟩ := h
    rfl

theorem Asking.contact {peer : DeviceInfo} {o : Outbound} (h : Asking peer o) :
    o.contact = some peer.fingerprint := by
  cases o with
  | posted r =>
    obtain ⟨pin, body, rfl⟩ := h
    rfl
  | _ => exact h.elim

theorem Uploading.contact {peer : DeviceInfo} {o : Outbound} (h : Uploading peer o) :
    o.contact = some peer.fingerprint := by
  cases o with
  | posted r =>
    obtain ⟨sessionId, fileId, token, length, bytes, row, rfl⟩ := h
    rfl
  | _ => exact h.elim

theorem Cancelling.contact {peer : DeviceInfo} {o : Outbound} (h : Cancelling peer o) :
    o.contact = none := by
  cases o with
  | posted r =>
    obtain ⟨sessionId, rfl⟩ := h
    rfl
  | _ => exact h.elim

section
variable [Qt]

/-- The steps that do not ask whether the peer is blocked: an announcement that is answered, the
PIN, a request that connects, and whatever makes a transfer go on. -/
def Heedful (w : Sender) : SenderEvent → Prop
  | .datagram payload address => w.Announces payload address →
    w.known.isBlocked (announcer payload address).fingerprint = false
  | .submitPin pin => w.service.busy = true → pin ≠ [] →
    w.known.isBlocked w.service.peer.fingerprint = false
  | .connects id certificate reported =>
    (w.GoesOn (.connects id certificate reported) →
      w.known.isBlocked w.service.peer.fingerprint = false) ∧
    ∀ r, w.replies id = some r → r.sent = false → r.request.connects certificate reported = true →
      ∀ fingerprint, r.request.contact = some fingerprint → w.known.isBlocked fingerprint = false
  | e => w.GoesOn e → w.known.isBlocked w.service.peer.fingerprint = false

/-- No device is contacted while it is blocked. -/
def Spared (w : Sender) : Prop :=
  ∀ e ∈ w.log, ∀ fingerprint, e.what.contact = some fingerprint →
    e.known.isBlocked fingerprint = false

theorem Sends.spared {e : SenderEvent} {o : Outbound} (h : w.Sends e o) (hok : w.Heedful e)
    {fingerprint : QString} (hc : o.contact = some fingerprint) :
    w.known.isBlocked fingerprint = false := by
  cases h with
  | probe ho =>
    rw [ho.contact] at hc
    cases hc
  | answer hannounces ho =>
    rw [ho.contact] at hc
    cases hc
    exact hok hannounces
  | ask hblocked ho hheld =>
    rw [ho.contact] at hc
    cases hc
    exact hblocked
  | askAgain hbusy hpin ho =>
    rw [ho.contact] at hc
    cases hc
    exact hok hbusy hpin
  | upload hgoes ho =>
    rw [ho.contact] at hc
    cases hc
    cases e with
    | answered id error status errorString body => exact hok hgoes
    | fails id errorString => exact hok hgoes
    | connects id certificate reported => exact hok.1 hgoes
    | _ => exact hgoes.elim
  | cancel ho =>
    rw [ho.contact] at hc
    cases hc
  | sent hr hsent hconnects => exact hok.2 _ hr hsent hconnects fingerprint hc

theorem Spared.step (h : w.Spared) (e : SenderEvent) (hok : w.Heedful e) : (w.step e).Spared := by
  obtain ⟨l, hl, hsends⟩ := (step_emits w e).1.log
  intro entry he fingerprint hc
  rw [hl] at he
  rcases List.mem_append.1 he with he | he
  · exact h entry he fingerprint hc
  · obtain ⟨ho, hknown, -⟩ := hsends entry he
    rw [hknown]
    exact ho.spared hok hc

/-- A device that is blocked is not contacted, as long as no step that does not ask comes upon
one. -/
theorem blocked_not_contacted (h : Lib.ReachedBy system Heedful w) :
    ∀ e ∈ w.log, ∀ fingerprint, e.what.contact = some fingerprint →
      e.known.isBlocked fingerprint = false := by
  refine h.invariant (I := Spared) (fun v hv e he => ?_) fun _ e hi hok => hi.step e hok
  rw [hv.log] at he
  cases he

end

/-! ## An announcement of a blocked device -/

/-- What a device says of itself. -/
def laptopPayload (announce : Bool) : QJsonObject := [
  (str "alias", .string (str "laptop")),
  (str "announce", .bool announce),
  (str "fingerprint", .string (str "AB12"))]

def phonePayload : QJsonObject := [
  (str "alias", .string (str "phone")),
  (str "announce", .bool true),
  (str "fingerprint", .string (str "CD34"))]

def quiet : Sender := fresh .trusting fun _ => none

section

local instance announceQt : Qt := Ascii.qt [] []

/-- It is answered like any other. -/
theorem blocked_contacted : ∃ w : Sender, Lib.Reached system w ∧ ∃ e ∈ w.log,
    e.what.contact = some (str "AB12") ∧ e.known.isBlocked (str "AB12") = true := by
  let events : List SenderEvent := [
    .start true,
    .edit (.setBlocked (str "AB12") (str "laptop") true),
    .datagram (laptopPayload true) (str "10.0.0.3")]
  have hany : (events.foldl step quiet).log.any (fun e =>
      e.what.contact = some (str "AB12") && e.known.isBlocked (str "AB12")) = true := by
    decide +kernel
  obtain ⟨e, he, hcontact⟩ := List.any_eq_true.1 hany
  rw [Bool.and_eq_true, decide_eq_true_eq] at hcontact
  exact ⟨_, Lib.ReachedBy.run_any events (.start (fresh_start _ _)), e, he, hcontact⟩

/-- A blocked device that does not ask for an answer gets none, and another one does, which is
blocked once the introduction has gone out. -/
theorem blocked_spared : ∃ w : Sender, w.known.isBlocked (str "AB12") = true ∧
    w.known.isBlocked (str "CD34") = true ∧ w.log.length = 4 ∧
    (∃ e ∈ w.log, (∃ r certificate, e.what = .sent r certificate) ∧
      e.what.contact = some (str "CD34")) ∧
    ∀ e ∈ w.log, ∀ fingerprint, e.what.contact = some fingerprint →
      e.known.isBlocked fingerprint = false := by
  let events : List SenderEvent := [
    .start true,
    .edit (.setBlocked (str "AB12") (str "laptop") true),
    .datagram (laptopPayload false) (str "10.0.0.3"),
    .datagram phonePayload (str "10.0.0.4"),
    .connects 0 [] false,
    .edit (.setBlocked (str "CD34") (str "phone") true)]
  have hintroduced : ∀ r ∈ (((events.take 4).foldl step quiet).replies 0),
      r.request.contact = some (str "CD34") ∧ r.request.slot.isTransfer = false := by decide +kernel
  have hfree : ((events.take 4).foldl step quiet).known.isBlocked (str "CD34") = false := by
    decide +kernel
  have hok : Lib.Allowed system Heedful quiet events := by
    refine ⟨fun hg => hg.elim, fun hg => hg.elim, fun ha => ?_, fun _ => by decide +kernel,
      ⟨fun hg => ?_, fun r hr _ _ fingerprint hc => ?_⟩, fun hg => hg.elim, trivial⟩
    · exact absurd ha.announce (by decide)
    · obtain ⟨r, row, hr, -, -, hslot⟩ := hg
      have haside := (hintroduced r hr).2
      rw [hslot] at haside
      cases haside
    · obtain rfl := Option.some.inj ((hintroduced r hr).1.symm.trans hc)
      exact hfree
  have hleft : (events.foldl step quiet).log.any (fun e => (match e.what with
      | .sent .. => true
      | _ => false) && e.what.contact = some (str "CD34")) = true := by decide +kernel
  obtain ⟨e, he, hany⟩ := List.any_eq_true.1 hleft
  rw [Bool.and_eq_true, decide_eq_true_eq] at hany
  refine ⟨events.foldl step quiet, by decide +kernel, by decide +kernel, by decide +kernel,
    ⟨e, he, ?_, hany.2⟩,
    blocked_not_contacted (Lib.ReachedBy.run events (.start (fresh_start _ _)) hok)⟩
  cases hwhat : e.what with
  | sent r certificate => exact ⟨r, certificate, rfl⟩
  | _ =>
    rw [hwhat] at hany
    cases hany.1

end

end Sender

end LocalSend
