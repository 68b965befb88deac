import LocalSend.Core.Crypto
import LocalSend.Core.DeviceInfo

/-!
# The settings, and the identity behind them

`AppSettings` with the stored values as fields, and the `Certificate` it owns. Loading or
generating a key pair is OpenSSL's and the file system's work: what it would give is passed in as
an `Issue`.
-/

set_option autoImplicit false

namespace LocalSend

/-- A key pair, or the reason there is none. -/
abbrev Issue := Except QString (QByteArray × QByteArray)

/-- A null certificate or key is empty. -/
structure Certificate where
  certificate : QByteArray
  key : QByteArray
  fingerprint : QString
  lastError : QString

namespace Certificate

def isValid (c : Certificate) : Bool := c.certificate ≠ [] && c.key ≠ [] && c.fingerprint ≠ []

/-- The fingerprint of somebody's certificate: empty for a null one. -/
def fingerprintOf [Qt] (certificate : QByteArray) : QString :=
  if certificate = [] then [] else Crypto.sha256Hex certificate

def ensure [Qt] (c : Certificate) (issue : Issue) : Bool × Certificate :=
  if c.isValid then (true, c)
  else match issue with
    | .ok (certificate, key) =>
      if certificate = [] ∨ key = [] then
        (false, { c with lastError := str "stored identity is not a usable key pair" })
      else (true, { c with
        certificate := certificate
        key := key
        fingerprint := fingerprintOf certificate })
    | .error reason => (false, { c with lastError := reason })

end Certificate

def PinIterations : Nat := 120000
def PinSaltBytes : Nat := 16
def PinHashBytes : Nat := 32

structure AppSettings where
  aliasName : QString
  deviceModel : QString
  randomFingerprint : QString
  port : Int
  storedDestination : QString
  defaultDestination : QString
  folderPerSender : Bool
  receiveEnabled : Bool
  quickSave : Bool
  pinEnabled : Bool
  pinSalt : QByteArray
  pinHash : QByteArray
  secureTransport : Bool
  historyEnabled : Bool
  identity : Certificate
  transportError : QString

namespace AppSettings

def destination (s : AppSettings) : QString :=
  if s.storedDestination = [] then s.defaultDestination else s.storedDestination

def isEncrypted (s : AppSettings) : Bool := s.secureTransport && s.identity.isValid

def fingerprint (s : AppSettings) : QString :=
  if s.isEncrypted then s.identity.fingerprint else s.randomFingerprint

def self (s : AppSettings) : DeviceInfo where
  aliasName := s.aliasName
  version := Protocol.Version
  deviceModel := s.deviceModel
  deviceType := str "mobile"
  fingerprint := s.fingerprint
  port := s.port
  protocol := if s.isEncrypted then str "https" else str "http"
  download := false

section
variable [Qt]

def checkPin (s : AppSettings) (candidate : QString) : Bool :=
  if ¬ s.pinEnabled then true
  else if s.pinSalt = [] ∨ s.pinHash = [] then true
  else
    let derived := Crypto.deriveKey candidate s.pinSalt PinIterations s.pinHash.length
    if derived = [] then false else derived == s.pinHash

def ensureIdentity (s : AppSettings) (issue : Issue) : AppSettings :=
  let (ok, identity) := s.identity.ensure issue
  if ok then { s with identity := identity, transportError := [] }
  else { s with identity := identity, transportError := identity.lastError }

/-- The setters say whether they emit their change signal. -/
def setPort (s : AppSettings) (port : Int) : Bool × AppSettings :=
  if port < 1024 ∨ port > 65535 ∨ port = s.port then (false, s) else (true, { s with port := port })

def setSecureTransport (s : AppSettings) (enabled : Bool) (issue : Issue) : Bool × AppSettings :=
  if enabled = s.secureTransport then (false, s)
  else
    let s := { s with secureTransport := enabled }
    (true, if enabled then s.ensureIdentity issue else s)

def setReceiveEnabled (s : AppSettings) (enabled : Bool) : Bool × AppSettings :=
  if enabled = s.receiveEnabled then (false, s) else (true, { s with receiveEnabled := enabled })

def setDestination (s : AppSettings) (path : QString) : AppSettings :=
  if path = [] ∨ path = s.destination then s else { s with storedDestination := path }

/-- No random source, no new PIN. -/
def setPin (s : AppSettings) (pin : QString) (salt : QByteArray) : AppSettings :=
  if pin = [] then { s with pinSalt := [], pinHash := [] }
  else if salt = [] then s
  else
    let hash := Crypto.deriveKey pin salt PinIterations PinHashBytes
    if hash = [] then s else { s with pinSalt := salt, pinHash := hash }

end

end AppSettings

/-- A phone that takes what it is sent without asking, in the clear. -/
def AppSettings.trusting : AppSettings where
  aliasName := str "phone"
  deviceModel := str "Sailfish"
  randomFingerprint := str "f0"
  port := Protocol.DefaultPort
  storedDestination := []
  defaultDestination := str "/d"
  folderPerSender := false
  receiveEnabled := true
  quickSave := true
  pinEnabled := false
  pinSalt := []
  pinHash := []
  secureTransport := false
  historyEnabled := true
  identity := ⟨[], [], [], []⟩
  transportError := []

/-- A random source that answers its `n`-th request with the byte `n`, over and over. -/
def countingSource : Crypto.Random := fun n => some fun _ => UInt8.ofNat n

end LocalSend
