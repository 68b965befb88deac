import LocalSend.Qt.Ascii
import LocalSend.Send.Proof.Listed

/-!
# Who a reply to `/register` speaks for

`acceptRegisterReply` believes a reply over TLS only about the key that served it.
`onRegisterFinished`, which hears of the answer to an announcement, reads the same body and does not
look at the key; so a peer that was reached by its own key can put in any other
(`register_reply_iff`).
-/

set_option autoImplicit false

namespace LocalSend

namespace Sender

variable [Qt] {w : Sender} {r : QNetworkReply}

/-- The answer to an announcement is served by one key, and a row is written for another. -/
def Impersonates (w : Sender) (r : QNetworkReply) (error : Bool) (body : QByteArray) : Prop :=
  r.request.slot = .registered ∧ ∃ peer, w.described r error body = some peer ∧
    w.devices.Lists w.known peer ∧ { peer with lastSeen := w.now } ∉ w.devices.devices ∧
      Crypto.equalsFold (Certificate.fingerprintOf r.certificate) peer.fingerprint = false

theorem fingerprintOf_ne_nil {certificate : QByteArray} (hc : certificate ≠ [])
    (hd : Qt.sha256 certificate ≠ []) : Certificate.fingerprintOf certificate ≠ [] := by
  unfold Certificate.fingerprintOf Crypto.sha256Hex
  rw [if_neg hc]
  cases hs : Qt.sha256 certificate with
  | nil => exact absurd hs hd
  | cons b bytes => simp [QByteArray.toHex, QString.fromLatin1]

/-- Any other slot checks the key before it puts a device forward. -/
theorem introduced_vouched {error : Bool} {body : QByteArray} {peer : DeviceInfo}
    (hc : Certificate.fingerprintOf r.certificate ≠ []) (hslot : r.request.slot ≠ .registered)
    (h : w.introduced r error body = some peer) :
    Crypto.equalsFold (Certificate.fingerprintOf r.certificate) peer.fingerprint = true := by
  have hpeer : ∀ device : Option DeviceInfo, device.filter (vouched r) = some peer →
      Crypto.equalsFold (Certificate.fingerprintOf r.certificate) peer.fingerprint = true := by
    intro device hd
    have hv := (Option.filter_eq_some_iff.1 hd).2
    simpa [vouched, hc] using hv
  unfold introduced at h
  split at h
  · rename_i hs
    exact absurd hs hslot
  · exact hpeer _ h
  · exact hpeer _ h
  · split at h
    · cases h
    · exact hpeer _ h
  · cases h

/-- A reply over TLS writes rows for the key that served it only, unless it is the answer to an
announcement and names another. -/
theorem register_reply_iff {id : ReplyId} {error : Bool} {status : Nat} {errorString : QString}
    {body : QByteArray} (hr : w.replies id = some r) (hsent : r.sent = true)
    (hc : r.certificate ≠ []) (hd : Qt.sha256 r.certificate ≠ []) :
    (∀ d ∈ (w.step (.answered id error status errorString body)).devices.devices,
      d ∉ w.devices.devices →
        Crypto.equalsFold (Certificate.fingerprintOf r.certificate) d.fingerprint = true) ↔
      ¬ w.Impersonates r error body := by
  have hobserved := fingerprintOf_ne_nil hc hd
  have hcalls : w.calls (.answered id error status errorString body) =
      w.offer (w.introduced r error body) := by simp [calls, hr, hsent]
  rw [step_devices, hcalls]
  constructor
  · rintro hall ⟨hslot, peer, hpeer, hlists, hnew, hforged⟩
    have hintro : w.introduced r error body = some peer := by
      unfold introduced
      rw [hslot]
      exact hpeer
    rw [hintro] at hall
    exact Bool.noConfusion ((hall _ (hlists.mem w.now) hnew).symm.trans hforged)
  · intro hgenuine d hmem hnew
    cases hintro : w.introduced r error body with
    | none =>
      rw [hintro] at hmem
      exact absurd hmem hnew
    | some peer =>
      rw [hintro] at hmem
      rcases DeviceModel.mem_upsert hmem with hold | ⟨hlists, rfl⟩
      · exact absurd hold hnew
      · by_cases hslot : r.request.slot = .registered
        · have hpeer : w.described r error body = some peer := by
            unfold introduced at hintro
            rwa [hslot] at hintro
          by_contra hforged
          exact hgenuine ⟨hslot, peer, hpeer, hlists, hnew, eq_false_of_ne_true hforged⟩
        · have hgenuine := introduced_vouched hobserved hslot hintro
          exact hgenuine

end Sender

namespace Sender

/-- The fingerprint of the certificate `M`. -/
def malloryFingerprint : QString :=
  str "08f271887ce94707da822d5263bae19d5519cb3614e0daedc4c7ce5dab7473f1"

def introducing (fingerprint : QString) : QJsonObject := [
  (str "alias", .string (str "bank")),
  (str "announce", .bool true),
  (str "fingerprint", .string fingerprint),
  (str "protocol", .string (str "https"))]

section

local instance vouchedQt : Qt := Ascii.qt
  [(ascii "mallory", introducing malloryFingerprint), (ascii "bank", introducing (str "BA4C"))]
  [(ascii "M", [8, 242, 113, 136, 124, 233, 71, 7, 218, 130, 45, 82, 99, 186, 225, 157, 85, 25, 203,
    54, 20, 224, 218, 237, 196, 199, 206, 93, 171, 116, 115, 241])]

/-- Somebody announces itself by its own key, and is answered; the connection gets to its key. -/
def announced : Sender := [
  .start true,
  .datagram (introducing malloryFingerprint) (str "10.0.0.66"),
  .connects 0 (ascii "M") true].foldl step (fresh .trusting fun _ => none)

/-- It is looked up by its address. -/
def lookedUp : Sender := [
  .start true,
  .addDeviceAt (str "10.0.0.66") 53317,
  .connects 0 (ascii "M") true].foldl step (fresh .trusting fun _ => none)

theorem announced_sent : ∃ r, announced.replies 0 = some r ∧ r.sent = true ∧
    r.request.isSecure = true ∧ r.certificate = ascii "M" := by
  have hreply : (announced.replies 0).any (fun r => r.sent && r.request.isSecure &&
      r.certificate == ascii "M") = true := by decide +kernel
  obtain ⟨r, hr, hany⟩ := (Option.any_eq_true _ _).1 hreply
  simp only [Bool.and_eq_true, beq_iff_eq] at hany
  exact ⟨r, hr, hany.1.1, hany.1.2, hany.2⟩

/-- The reply to the answer names another device, and a row is written for that. -/
theorem stranger_listed : ∃ r, announced.replies 0 = some r ∧ r.sent = true ∧
    r.request.isSecure = true ∧ r.certificate = ascii "M" ∧
    ∃ d ∈ (announced.step (.answered 0 false 200 [] (ascii "bank"))).devices.devices,
      d ∉ announced.devices.devices ∧
        Crypto.equalsFold (Certificate.fingerprintOf r.certificate) d.fingerprint = false := by
  obtain ⟨r, hr, hsent, hsecure, hc⟩ := announced_sent
  refine ⟨r, hr, hsent, hsecure, hc, ?_⟩
  have hrow : (announced.step (.answered 0 false 200 [] (ascii "bank"))).devices.devices.any
      (fun d => decide (d ∉ announced.devices.devices) &&
        !Crypto.equalsFold (Certificate.fingerprintOf (ascii "M")) d.fingerprint) = true := by
    decide +kernel
  obtain ⟨d, hd, hany⟩ := List.any_eq_true.1 hrow
  rw [Bool.and_eq_true, decide_eq_true_eq, Bool.not_eq_true'] at hany
  exact ⟨d, hd, hany.1, hc ▸ hany.2⟩

/-- Looked up by its address, it can only speak for itself. -/
theorem lookup_vouched :
    (lookedUp.step (.answered 0 false 200 [] (ascii "bank"))).devices.devices = [] ∧
    ∀ d ∈ (lookedUp.step (.answered 0 false 200 [] (ascii "mallory"))).devices.devices,
      d ∉ lookedUp.devices.devices →
        Crypto.equalsFold (malloryFingerprint.map Ascii.upper) d.fingerprint = true := by
  have hreply : (lookedUp.replies 0).any (fun r => r.sent && r.certificate == ascii "M" &&
      match r.request.slot with | .manual => true | _ => false) = true := by decide +kernel
  obtain ⟨r, hr, hany⟩ := (Option.any_eq_true _ _).1 hreply
  simp only [Bool.and_eq_true, beq_iff_eq] at hany
  obtain ⟨⟨hsent, hc⟩, hslot⟩ := hany
  have hkey : Certificate.fingerprintOf r.certificate = malloryFingerprint.map Ascii.upper := by
    rw [hc]
    decide +kernel
  refine ⟨by decide +kernel, fun d hd hnew => ?_⟩
  have hvouched := (register_reply_iff hr hsent (by rw [hc]; decide)
    (by rw [hc]; decide +kernel)).2 (fun h => by rw [h.1] at hslot; cases hslot) d hd hnew
  rw [hkey] at hvouched
  exact hvouched

end

end Sender

end LocalSend
