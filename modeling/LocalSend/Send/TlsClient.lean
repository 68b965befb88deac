import LocalSend.Qt.Ascii
import LocalSend.Send.Sender

/-!
# What decides a TLS connection

The functions of `TlsClient`, under its names, and what Qt does with them: it emits `sslErrors` when
it has something to object, and the connection goes on if every objection is ignored.
-/

set_option autoImplicit false

namespace LocalSend

/-- An objection, and the certificate it is about, empty for none. -/
structure QSslError where
  error : Nat
  certificate : QByteArray
  deriving DecidableEq

inductive PeerVerifyMode
  | verifyNone
  | queryPeer
  | verifyPeer
  /-- What it is for a client is `verifyPeer`. -/
  | autoVerifyPeer

inductive SslProtocol
  | secureProtocols
  | tlsV1_2OrLater

structure QSslConfiguration where
  protocol : SslProtocol := .secureProtocols
  localCertificate : QByteArray := []
  privateKey : QByteArray := []
  peerVerifyMode : PeerVerifyMode := .autoVerifyPeer

/-- The connection goes on past the handshake, where the slot of `sslErrors` ignores what it does
of the errors that are found. -/
def QSslConfiguration.proceeds (c : QSslConfiguration) (slot : List QSslError → List QSslError)
    (errors : List QSslError) : Bool :=
  match c.peerVerifyMode with
  | .verifyNone | .queryPeer => true
  | .verifyPeer | .autoVerifyPeer => errors = [] || errors.all (· ∈ slot errors)

namespace TlsClient

/-- Our own pair is shown if there is one, and what is not ignored ends the connection. -/
def configure (certificate key : QByteArray) : QSslConfiguration :=
  let configuration : QSslConfiguration := { protocol := .tlsV1_2OrLater }
  let configuration := if certificate ≠ [] ∧ key ≠ [] then
      { configuration with localCertificate := certificate, privateKey := key }
    else configuration
  { configuration with peerVerifyMode := .verifyPeer }

def presentedCertificate (fromConfiguration : QByteArray) (errors : List QSslError) : QByteArray :=
  if fromConfiguration ≠ [] then fromConfiguration
  else match errors.find? (fun e => e.certificate ≠ []) with
    | some e => e.certificate
    | none => []

/-- The slot: the errors it ignores. -/
def acceptUnknown (errors : List QSslError) : List QSslError := errors

variable [Qt]

/-- The slot: the errors it ignores. In it the configuration of the reply holds the certificate of
the peer. -/
def pin (expectedFingerprint : QString) (fromConfiguration : QByteArray) (errors : List QSslError) :
    List QSslError :=
  if expectedFingerprint = [] then []
  else
    let presented := presentedCertificate fromConfiguration errors
    if presented = [] then []
    else if ¬ Crypto.equalsFold (Certificate.fingerprintOf presented) expectedFingerprint then []
    else errors

/-- The certificate is the expected one. -/
def Matches (expected : QString) (certificate : QByteArray) : Prop :=
  expected ≠ [] ∧ Crypto.equalsFold (Certificate.fingerprintOf certificate) expected = true

instance (expected : QString) (certificate : QByteArray) : Decidable (Matches expected certificate) :=
  inferInstanceAs (Decidable (_ ∧ _))

variable {expected : QString} {certificate : QByteArray} {errors : List QSslError}

omit [Qt] in
theorem presentedCertificate_eq (hc : certificate ≠ []) :
    presentedCertificate certificate errors = certificate := if_pos hc

theorem pin_of_matches (hc : certificate ≠ []) (h : Matches expected certificate) :
    pin expected certificate errors = errors := by
  simp [pin, presentedCertificate_eq hc, hc, h.1, h.2]

theorem pin_of_differs (hc : certificate ≠ []) (h : ¬ Matches expected certificate) :
    pin expected certificate errors = [] := by
  unfold pin
  rw [presentedCertificate_eq hc]
  split
  · rfl
  · rename_i hexpected
    rw [if_neg hc, if_pos fun hsame => h ⟨hexpected, hsame⟩]

/-- The connection goes on if and only if nothing is reported or the certificate is the expected
one. -/
theorem proceeds_pin (own key : QByteArray) (hc : certificate ≠ []) :
    (configure own key).proceeds (pin expected certificate) errors = true ↔
      errors = [] ∨ Matches expected certificate := by
  have hmode : (configure own key).peerVerifyMode = .verifyPeer := rfl
  unfold QSslConfiguration.proceeds
  simp only [hmode]
  by_cases hm : Matches expected certificate
  · simp [pin_of_matches hc hm, hm]
  · rw [pin_of_differs hc hm]
    cases errors <;> simp [hm]

/-- A request goes on in the way of these functions. -/
theorem connects_pin {r : QNetworkRequest} (own key : QByteArray) (hc : certificate ≠ [])
    (hsecure : r.isSecure = true) (hpolicy : r.policy = .pin expected) :
    r.connects certificate (errors ≠ []) =
      (configure own key).proceeds (pin expected certificate) errors := by
  rw [Bool.eq_iff_iff, proceeds_pin own key hc]
  simp [QNetworkRequest.connects, hsecure, hpolicy, Policy.ignores, Matches, hc]

theorem connects_acceptUnknown {r : QNetworkRequest} (own key : QByteArray)
    (hpolicy : r.policy = .acceptUnknown) :
    r.connects certificate (errors ≠ []) = (configure own key).proceeds acceptUnknown errors := by
  have hmode : (configure own key).peerVerifyMode = .verifyPeer := rfl
  have hall : errors.all (· ∈ acceptUnknown errors) = true :=
    List.all_eq_true.2 fun e he => decide_eq_true he
  simp [QNetworkRequest.connects, hpolicy, Policy.ignores, QSslConfiguration.proceeds, hmode, hall]

/-- `pin` decides if and only if something is reported, or there is nothing to refuse. -/
theorem pin_decides_iff (own key : QByteArray) (expected : QString) (errors : List QSslError)
    (hc : certificate ≠ []) :
    ((configure own key).proceeds (pin expected certificate) errors = true ↔
        Matches expected certificate) ↔ errors ≠ [] ∨ Matches expected certificate := by
  rw [proceeds_pin own key hc]
  tauto

end TlsClient

namespace TlsClient

section

local instance decidingQt : Qt := Ascii.qt [] [(ascii "C", [171, 205]), (ascii "M", [18, 52])]

/-- Of two certificates that are signed by themselves, the expected one is taken, in whatever case. -/
theorem pin_decides_selfSigned :
    (configure [] []).proceeds (pin (str "abcd") (ascii "C")) [⟨18, ascii "C"⟩] = true ∧
      ¬ (configure [] []).proceeds (pin (str "abcd") (ascii "M")) [⟨18, ascii "M"⟩] = true := by
  have hexpected := (pin_decides_iff [] [] (str "abcd") [⟨18, ascii "C"⟩]
    (show ascii "C" ≠ [] by decide)).2 (.inl (List.cons_ne_nil _ _))
  have hother := (pin_decides_iff [] [] (str "abcd") [⟨18, ascii "M"⟩]
    (show ascii "M" ≠ [] by decide)).2 (.inl (List.cons_ne_nil _ _))
  exact ⟨hexpected.2 (by decide +kernel), fun h => absurd (hother.1 h) (by decide +kernel)⟩

/-- A certificate that Qt has nothing against is taken for the expected one. -/
theorem pin_not_asked :
    (configure [] []).proceeds (pin (str "abcd") (ascii "M")) [] = true ∧
      ¬ Matches (str "abcd") (ascii "M") := by decide +kernel

end

end TlsClient

end LocalSend
