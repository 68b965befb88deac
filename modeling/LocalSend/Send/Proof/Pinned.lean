import LocalSend.Qt.Ascii
import LocalSend.Send.Proof.Emits

/-!
# What only the row's own device may see

`Sender.Inv`: every request under way that carries the file list, the PIN or a file is a request to
a row that was taken from the device list, pinned to the fingerprint of that row, whatever the
network said in the meantime. The rest is up to the connection: the pin is asked only over TLS, and
only when TLS has an error to report.
-/

set_option autoImplicit false

namespace LocalSend

/-- The file list, the PIN and the files. -/
def Content.isSecret : Content → Bool
  | .fileList _ _ => true
  | .fileBytes .. => true
  | _ => false

namespace Sender

section
variable [Qt] {w : Sender}

/-- A request of a transfer to this row. -/
def For (row : DeviceInfo) (r : QNetworkRequest) : Prop :=
  r = requestTo (SendService.peerOf row) r.content r.slot

/-- Only its holder is sent what the request carries: the pin is asked. -/
def Verified (row : DeviceInfo) (r : QNetworkRequest) (certificate : Option QByteArray) : Prop :=
  For row r ∧ ∃ c, certificate = some c ∧
    Crypto.equalsFold (Certificate.fingerprintOf c) row.fingerprint = true

/-- Requests of a transfer are under way. -/
def Sending (w : Sender) : Prop :=
  w.service.busy = true ∨ ∃ id r, w.replies id = some r ∧ r.request.slot.isTransfer = true

structure Inv (w : Sender) : Prop where
  peer : w.Sending → ∃ row ∈ w.held, w.service.peer = SendService.peerOf row
  pinned : ∀ id r, w.replies id = some r → r.request.content.isSecret = true →
    ∃ row ∈ w.held, For row r.request
  sent : ∀ e ∈ w.log, ∀ r certificate, e.what = .sent r certificate → e.encrypted = true →
    r.content.isSecret = true → ∃ row ∈ w.held, Verified row r certificate

/-- When a secret meets a server while encryption is on, the row is one with TLS, and TLS reports
an error unless the certificate is the row's own. -/
def Guarded (w : Sender) : SenderEvent → Prop
  | .connects id certificate reported => ∀ r, w.replies id = some r → r.sent = false →
    w.settings.isEncrypted = true → r.request.content.isSecret = true →
      r.request.isSecure = true ∧
        (reported = true ∨ r.request.policy.ignores certificate = true)
  | _ => True

theorem Start.inv (h : w.Start) : w.Inv := by
  refine ⟨?_, fun id r hr => ?_, fun e he => ?_⟩
  · rintro (hb | ⟨id, r, hr, -⟩)
    · rw [h.service] at hb
      cases hb
    · rw [h.replies] at hr
      cases hr
  · rw [h.replies] at hr
    cases hr
  · rw [h.log] at he
    cases he

/-- Whatever makes a transfer go on, its requests are under way. -/
theorem GoesOn.sending {e : SenderEvent} (h : w.GoesOn e) : w.Sending := by
  cases e with
  | answered id error status errorString body =>
    obtain ⟨r, hr, -, ⟨hs, -⟩ | ⟨row, hs, -⟩⟩ := h
    · exact .inr ⟨id, r, hr, by rw [hs]; rfl⟩
    · exact .inr ⟨id, r, hr, by rw [hs]; rfl⟩
  | fails id errorString =>
    obtain ⟨r, row, hr, -, hs⟩ := h
    exact .inr ⟨id, r, hr, by rw [hs]; rfl⟩
  | connects id certificate reported =>
    obtain ⟨r, row, hr, -, -, hs⟩ := h
    exact .inr ⟨id, r, hr, by rw [hs]; rfl⟩
  | _ => exact h.elim

/-- What a step posts of a transfer is for a row that is held. -/
theorem Inv.posted (h : w.Inv) {e : SenderEvent} {r : QNetworkRequest}
    (hs : w.Sends e (.posted r)) :
    (r.content.isSecret = true → ∃ row ∈ w.held, For row r) ∧
      (r.slot.isTransfer = true → w.Sending ∨ ∃ device paths, e = .sendFiles device paths) := by
  cases hs with
  | probe ho =>
    obtain ⟨-, ⟨body, hcontent⟩, hslot⟩ := ho
    rw [hcontent, hslot]
    exact ⟨nofun, nofun⟩
  | answer hannounces ho =>
    obtain ⟨body, rfl⟩ := ho
    exact ⟨nofun, nofun⟩
  | ask hblocked ho hheld =>
    obtain ⟨pin, body, rfl⟩ := ho
    exact ⟨fun _ => ⟨_, hheld, rfl⟩, fun _ => .inr ⟨_, _, rfl⟩⟩
  | askAgain hbusy hpin ho =>
    obtain ⟨row, hrow, hp⟩ := h.peer (.inl hbusy)
    obtain ⟨pin, body, rfl⟩ := ho
    refine ⟨fun _ => ⟨row, hrow, ?_⟩, fun _ => .inl (.inl hbusy)⟩
    rw [hp]
    rfl
  | upload hgoes ho =>
    obtain ⟨row, hrow, hp⟩ := h.peer hgoes.sending
    obtain ⟨sessionId, fileId, token, length, bytes, tracked, rfl⟩ := ho
    refine ⟨fun _ => ⟨row, hrow, ?_⟩, fun _ => .inl hgoes.sending⟩
    rw [hp]
    rfl
  | cancel ho =>
    obtain ⟨sessionId, rfl⟩ := ho
    exact ⟨nofun, nofun⟩

/-- A secret that leaves goes to the holder of the row's key. -/
theorem Inv.verified (h : w.Inv) {e : SenderEvent} (hok : w.Guarded e) {r : QNetworkRequest}
    {certificate : Option QByteArray} (hs : w.Sends e (.sent r certificate))
    (he : w.settings.isEncrypted = true) (hsecret : r.content.isSecret = true) :
    ∃ row ∈ w.held, Verified row r certificate := by
  cases hs with
  | probe ho => exact ho.elim
  | answer hannounces ho => exact ho.elim
  | ask hblocked ho hheld => exact ho.elim
  | askAgain hbusy hpin ho => exact ho.elim
  | upload hgoes ho => exact ho.elim
  | cancel ho => exact ho.elim
  | @sent id certificate reported reply hr hsent hconnects =>
    obtain ⟨row, hrow, hfor⟩ := h.pinned id reply hr hsecret
    obtain ⟨hsecure, hreported⟩ := hok reply hr hsent he hsecret
    have hpolicy : reply.request.policy = .pin row.fingerprint := by
      rw [show reply.request = _ from hfor]
      rfl
    -- over TLS, the only way past a reported error is the row's own certificate
    have hown : reply.request.policy.ignores certificate = true := by
      rcases hreported with hreported | hown
      · simpa [QNetworkRequest.connects, hsecure, hreported] using hconnects
      · exact hown
    rw [hpolicy] at hown
    simp only [TlsClient.Policy.ignores, Bool.and_eq_true] at hown
    exact ⟨row, hrow, hfor, certificate, by rw [hsecure, if_pos rfl], hown.2⟩

theorem Inv.step (h : w.Inv) (e : SenderEvent) (hok : w.Guarded e) : (w.step e).Inv := by
  obtain ⟨⟨hheld, ⟨l, hl, hlog⟩, hreplies⟩, hpeer⟩ := step_emits w e
  have keep : ∀ {P : DeviceInfo → Prop}, (∃ row ∈ w.held, P row) → ∃ row ∈ (w.step e).held, P row :=
    fun ⟨row, hrow, hP⟩ => ⟨row, hheld row hrow, hP⟩
  refine ⟨fun hsending => ?_, fun id r hr hsecret => ?_, fun entry he r certificate hw hen hs => ?_⟩
  · rcases hpeer with ⟨device, paths, -, hdevice, hp⟩ | hcalm
    · exact ⟨device, hheld device hdevice, hp⟩
    · rw [hcalm.peer]
      refine keep (h.peer ?_)
      rcases hsending with hb | ⟨id, r, hr, hslot⟩
      · exact .inl (hcalm.busy hb)
      · rcases hcalm.replies id r hr with ⟨r', hr', hreq⟩ | ⟨hne, hposted⟩
        · exact .inr ⟨id, r', hr', by rw [hreq]; exact hslot⟩
        · rcases (h.posted hposted).2 hslot with hsending | ⟨device, paths, he⟩
          · exact hsending
          · exact absurd he (hne device paths)
  · rcases hreplies id r hr with ⟨r', hr', hreq⟩ | hposted
    · rw [← hreq] at hsecret ⊢
      exact keep (h.pinned id r' hr' hsecret)
    · exact keep ((h.posted hposted).1 hsecret)
  · rw [hl] at he
    rcases List.mem_append.1 he with he | he
    · exact keep (h.sent entry he r certificate hw hen hs)
    · obtain ⟨ho, -, hencrypted⟩ := hlog entry he
      rw [hw] at ho
      exact keep (h.verified hok ho (hencrypted ▸ hen) hs)

end

/-! ## A row that turned into one without TLS -/

def documentsFolder : QString → Option LocalFile := fun path =>
  if path = str "/d/a.txt" then some ⟨ascii "hello", str "text/plain", true⟩ else none

/-- A device with encryption on. -/
def encrypted : Sender := fresh { AppSettings.trusting with
  secureTransport := true
  identity := ⟨[1], [2], str "k", []⟩ } documentsFolder

/-- The fingerprint of the certificate `C1`. -/
def laptopFingerprint : QString :=
  str "ab861dc170dc2e43224e45278d3d31a675b9ebc34c9b0f48c066ca1eeaed8ee6"

def announcement (protocol : QString) : QJsonObject := [
  (str "alias", .string (str "laptop")),
  (str "fingerprint", .string laptopFingerprint),
  (str "protocol", .string protocol)]

section

local instance downgradeQt : Qt := Ascii.qt [] []

end

section

local instance pinnedQt : Qt := Ascii.qt [] [
  (ascii "C1", [171, 134, 29, 193, 112, 220, 46, 67, 34, 78, 69, 39, 141, 61, 49, 166, 117, 185,
    235, 195, 76, 155, 15, 72, 192, 102, 202, 30, 234, 237, 142, 230])]

end

end Sender

end LocalSend
