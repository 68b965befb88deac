import LocalSend.Qt.Ascii
import LocalSend.Receive.Proof.Explained

/-!
# Whose bytes, and whose name

What the explained log says of the two things a stranger must not get: a byte on the disk
(`writes_authorised`), and a prompt, a session or a pairing under a name that is not its own
(`identity_handshook`).
-/

set_option autoImplicit false

namespace LocalSend

/-- The entries that act on the name of the sender: a prompt, a session, a pairing. -/
def Effect.identifies : Effect → Bool
  | .prompted .. => true
  | .issued .. => true
  | .remembered .. => true
  | _ => false

/-- The certificate presented on the connection of a prepare-upload, if one was, is that of the
fingerprint the request claims. -/
def Asked.Handshook [Qt] (a : Asked) : Prop :=
  ∀ certificate, a.request.peerCertificate = some certificate →
    Crypto.equalsFold (Certificate.fingerprintOf certificate) a.peer.fingerprint = true

theorem Log.Vouched.handshook [Qt] {pre : List Effect} {a : Asked} (h : Log.Vouched pre a) :
    a.Handshook := by
  intro certificate hc
  have hv := h.2
  unfold World.fingerprintVerified at hv
  rwa [hc] at hv

namespace World

section
variable [Qt] {w : World}

/-- A byte of a body reaches a file only for an upload that was let in during a session, with its
id, a file id and the token issued for it, from the address whose prepare-upload was accepted; and
that session is still open. -/
theorem writes_authorised (h : Lib.Reached system w) {pre post : List Effect} {i : ConnId}
    {c : HttpConnection} {path : QString} {data : QByteArray}
    (hw : w.log = pre ++ Effect.wrote i c path data :: post) :
    ∃ before id address tokens between c₀ row since a,
      pre = before ++ Effect.issued id address tokens ::
        (between ++ Effect.opened i c₀ row :: since) ∧
      (∀ e ∈ between ++ since, e.session? = none) ∧
      Log.asked before = some a ∧ a.request.peerAddress = address ∧
      c₀.query = c.query ∧ c₀.peerAddress = address ∧
      id ≠ [] ∧ c.queryValue (str "sessionId") = id ∧
      tokens.lookup c.fileId = some (c.queryValue (str "token")) ∧ c.peerAddress = address := by
  have he := reached_explained h
  obtain ⟨s, c₀, row, hs, hopened, hquery, haddress₀, hid, htoken, haddress⟩ :=
    he pre _ post hw
  obtain ⟨hne, before, hpre⟩ := Log.session_split hs
  obtain ⟨between, since, hsplit⟩ := List.append_of_mem hopened
  -- what was issued was issued to the address of the request that was parked
  obtain ⟨a, ⟨hasked, -⟩, ha⟩ := he before (.issued s.id s.address s.tokens)
    (Log.sinceIssued pre ++ Effect.wrote i c path data :: post) (by
      rw [hw, ← List.cons_append, ← List.append_assoc, ← hpre])
  refine ⟨before, s.id, s.address, s.tokens, between, c₀, row, since, a, ?_, ?_, hasked, ha, hquery,
    haddress₀.trans haddress, hne, hid, htoken, haddress⟩
  · rw [← hsplit]
    exact hpre
  · intro e hmem
    refine Log.session?_of_mem_sinceIssued (?_ : e ∈ Log.sinceIssued pre)
    rw [hsplit]
    rcases List.mem_append.1 hmem with hmem | hmem
    · exact List.mem_append_left _ hmem
    · exact List.mem_append_right _ (List.mem_cons_of_mem _ hmem)

/-! ## The name on the prompt -/

/-- The fingerprint behind every prompt, session and pairing is the one the body of the
prepare-upload claimed, and the one it handshook with if it presented a certificate. -/
theorem identity_handshook (h : Lib.Reached system w) :
    (∀ pre e post, w.log = pre ++ e :: post → e.identifies = true →
      ∃ a, Log.asked pre = some a ∧ a.peer = requestPeer a.request ∧ a.Handshook ∧
        ∀ fingerprint aliasName, e = .remembered fingerprint aliasName →
          fingerprint = a.peer.fingerprint) ∧
    (w.Busy → ∃ a, Log.asked w.log = some a ∧ a.peer = requestPeer a.request ∧ a.Handshook ∧
      w.peer.fingerprint = a.peer.fingerprint ∧
      w.transfer.peerFingerprint = a.peer.fingerprint) := by
  have hexplained := reached_explained h
  refine ⟨fun pre e post hw hid => ?_, fun hb => ?_⟩
  · have he := hexplained pre e post hw
    have hclaimed : ∀ {a}, Log.asked pre = some a → a.peer = requestPeer a.request :=
      fun ha => (Log.asked_request (hexplained.before hw) ha).2.1
    cases e with
    | prompted aliasName fileCount totalBytes =>
      obtain ⟨a, ha, -⟩ := he
      exact ⟨a, ha.1, hclaimed ha.1, ha.handshook, by rintro _ _ ⟨⟩⟩
    | issued sessionId address tokens =>
      obtain ⟨a, ha, -⟩ := he
      exact ⟨a, ha.1, hclaimed ha.1, ha.handshook, by rintro _ _ ⟨⟩⟩
    | remembered fingerprint aliasName =>
      obtain ⟨a, ha, hf⟩ := he
      refine ⟨a, ha.1, hclaimed ha.1, ha.handshook, ?_⟩
      rintro _ _ ⟨⟩
      exact hf.symm
    | _ => cases hid
  · obtain ⟨a, ha⟩ := (reached_inv h).recalls hb
    exact ⟨a, ha.asked, (Log.asked_request hexplained ha.asked).2.1, ha.vouched.handshook,
      by rw [ha.peer],
      congrArg (fun s => s.2.1) ha.shown⟩

end

/-! ## A run that writes -/

def prepareTarget : QByteArray := ascii "/api/localsend/v2/prepare-upload"

def oneFile : QJsonObject :=
  offer (str "laptop") (str "ab12") [(str "a", descriptor (str "a.txt") 5)]

section

local instance helloQt : Qt := Ascii.qt [(Ascii.json oneFile, oneFile)] []

/-- The first upload of the first session. -/
def helloUpload : QByteArray :=
  post (uploadTarget (Crypto.generateToken countingSource 0) (str "a")
    (Crypto.generateToken countingSource 1)) (ascii "hello")

/-- A peer offers one file and uploads it. -/
def helloEvents (offered : QJsonObject) : List Event := [
  .startListening,
  .connect (str "10.0.0.2") none,
  .readyRead 0 (post prepareTarget (Ascii.json offered)),
  .connect (str "10.0.0.2") none,
  .readyRead 1 helloUpload]

def helloStart : World := fresh .trusting .obliging countingSource

theorem helloStart_start : helloStart.Start := fresh_start .obliging countingSource (by decide)

/-- The body of the upload goes to the part file. -/
def isHello : Effect → Bool
  | .wrote i _ path data => i = 1 ∧ path = str "/d/a.txt.part" ∧ data = ascii "hello"
  | _ => false

theorem hello_authorised : ∃ c pre post before id address tokens since,
    ((helloEvents oneFile).foldl step helloStart).log =
      pre ++ Effect.wrote 1 c (str "/d/a.txt.part") (ascii "hello") :: post ∧
    pre = before ++ Effect.issued id address tokens :: since ∧
    tokens.lookup c.fileId = some (c.queryValue (str "token")) ∧ c.peerAddress = address := by
  have hany : ((helloEvents oneFile).foldl step helloStart).log.any isHello = true := by decide +kernel
  obtain ⟨e, hmem, he⟩ := List.any_eq_true.1 hany
  obtain ⟨pre, post, hw⟩ := List.append_of_mem hmem
  cases e with
  | wrote i c path data =>
    simp only [isHello, decide_eq_true_eq] at he
    obtain ⟨rfl, rfl, rfl⟩ := he
    obtain ⟨before, id, address, tokens, between, c₀, row, since, a, hpre, -, -, -, -, -, -, -,
      htoken, haddress⟩ := writes_authorised
        (Lib.ReachedBy.run_any (helloEvents oneFile) (.start helloStart_start)) hw
    exact ⟨c, pre, post, before, id, address, tokens, _, hw, hpre, htoken, haddress⟩
  | _ => cases he

end

/-! ## Runs over TLS -/

section

local instance secureQt : Qt := Ascii.qt [(Ascii.json oneFile, oneFile)] [([7], [0xab, 0x12])]

def secureStart : World := fresh { AppSettings.trusting with
  quickSave := false
  secureTransport := true
  identity := ⟨[1], [2], str "k", []⟩ } .obliging countingSource

/-- A peer with this certificate offers one file, is let in and uploads it. -/
def secureEvents (certificate : Option QByteArray) : List Event := [
  .startListening,
  .connect (str "10.0.0.2") certificate,
  .readyRead 0 (post prepareTarget (Ascii.json oneFile)),
  .accept,
  .connect (str "10.0.0.2") certificate,
  .readyRead 1 helloUpload]

theorem secure_reached (certificate : Option QByteArray) (n : Nat) :
    Lib.Reached system (((secureEvents certificate).take n).foldl step secureStart) :=
  Lib.ReachedBy.run_any _ (.start (fresh_start .obliging countingSource (by decide)))

theorem laptop_handshook :
    (∃ pre e post a, (((secureEvents (some [7])).take 6).foldl step secureStart).log =
      pre ++ e :: post ∧ Log.asked pre = some a ∧ a.peer = requestPeer a.request ∧ a.Handshook) ∧
    ∃ a, Log.asked (((secureEvents (some [7])).take 3).foldl step secureStart).log = some a ∧
      a.peer = requestPeer a.request ∧ a.Handshook := by
  have hany : (((secureEvents (some [7])).take 6).foldl step secureStart).log.any
      (·.identifies) = true := by decide +kernel
  have hbusy : (((secureEvents (some [7])).take 3).foldl step secureStart).pending ≠ none := by
    decide +kernel
  obtain ⟨e, hmem, he⟩ := List.any_eq_true.1 hany
  obtain ⟨pre, post, hw⟩ := List.append_of_mem hmem
  obtain ⟨a, ha, hpeer, hh, -⟩ :=
    (identity_handshook (secure_reached (some [7]) 6)).1 pre e post hw he
  obtain ⟨b, hb, hpeer', hh', -⟩ :=
    (identity_handshook (secure_reached (some [7]) 3)).2 (.inl hbusy)
  exact ⟨⟨pre, e, post, a, hw, ha, hpeer, hh⟩, b, hb, hpeer', hh'⟩

def isPrompt : Effect → Bool
  | .prompted .. => true
  | _ => false

def isPairing : Effect → Bool
  | .remembered fingerprint _ => fingerprint = str "ab12"
  | _ => false

def uncertified : Effect → Bool
  | .begun _ request _ _ => request.peerCertificate = none
  | _ => true

/-- A client without a certificate is prompted for, let in and paired with, under whatever
fingerprint its request claims. -/
theorem unverified_without_certificate :
    (((secureEvents none).take 6).foldl step secureStart).server.isSecure = true ∧
    (((secureEvents none).take 6).foldl step secureStart).log.any isPrompt = true ∧
    (((secureEvents none).take 6).foldl step secureStart).log.any isPairing = true ∧
    ∀ pre e post, (((secureEvents none).take 6).foldl step secureStart).log = pre ++ e :: post →
      e.identifies = true →
      ∃ a, Log.asked pre = some a ∧ a.request.peerCertificate = none := by
  have hr := secure_reached none 6
  have hrun : (((secureEvents none).take 6).foldl step secureStart).server.isSecure = true ∧
      (((secureEvents none).take 6).foldl step secureStart).log.any isPrompt = true ∧
      (((secureEvents none).take 6).foldl step secureStart).log.any isPairing = true ∧
      (((secureEvents none).take 6).foldl step secureStart).log.all uncertified = true := by
    decide +kernel
  generalize ((secureEvents none).take 6).foldl step secureStart = w at hr hrun ⊢
  obtain ⟨hsecure, hprompt, hpairing, hall⟩ := hrun
  refine ⟨hsecure, hprompt, hpairing, fun pre e post hw hid => ?_⟩
  obtain ⟨a, ha⟩ : ∃ a, Log.asked pre = some a := by
    have he := reached_explained hr pre e post hw
    cases e with
    | prompted => exact ⟨_, he.choose_spec.1.1⟩
    | issued => exact ⟨_, he.choose_spec.1.1⟩
    | remembered => exact ⟨_, he.choose_spec.1.1⟩
    | _ => cases hid
  refine ⟨a, ha, ?_⟩
  rw [hw] at hall
  simpa [uncertified] using
    List.all_eq_true.1 hall _ (List.mem_append_left _ (Log.mem_of_asked ha))

end

end World

end LocalSend
