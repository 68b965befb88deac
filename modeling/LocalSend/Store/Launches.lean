import LocalSend.Core.Settings
import LocalSend.Lib.Run
import LocalSend.Store.Catalogue
import LocalSend.Store.Secure

/-!
# Launches of the app

What is on the disk between launches, and what a launch holds in memory of it: the storage key, if
the keystore gave it, the TLS identity and the trust record. A launch is the start of the process,
in the order of `main`. How a PEM text reads is Qt's (`Pem`); what the file system answers, and
what key pair OpenSSL would generate next, is `StoreEnv`.
-/

set_option autoImplicit false

namespace LocalSend

/-- The certificate and the key a PEM text holds, empty for a null one. -/
class Pem where
  certificate : QByteArray → QByteArray
  key : QByteArray → QByteArray

/-- How a PEM text begins. -/
def PemHead : QByteArray := ascii "-----BEGIN "

/-- A generated key pair, as OpenSSL writes it. -/
structure PemPair where
  certificate : QByteArray
  key : QByteArray
  begins : PemHead.isPrefixOf certificate = true ∧ PemHead.isPrefixOf key = true

structure StoreEnv where
  mkpath : Bool
  readable : QString → Bool
  commits : QString → Bool
  removes : QString → Bool
  generated : Except QString PemPair

structure Install where
  directory : QString
  files : Files
  env : StoreEnv
  random : Crypto.Random
  drawn : Nat
  /-- The key in the keystore. -/
  masterKey : QByteArray
  secureTransport : Bool
  running : Bool
  store : SecureStore
  identity : Certificate
  known : KnownDevices
  /-- A ghost: every call of a setter of the record, in any launch. -/
  edits : List KnownDevices.Edit

inductive StoreEvent
  /-- The app starts, and the keystore gives its key or does not. -/
  | launch (opened : Bool)
  | edit (now : Nat) (e : KnownDevices.Edit)
  /-- The history is saved, with this text. -/
  | history (text : QByteArray)
  | setSecureTransport (enabled : Bool)
  /-- The system will answer differently from now on. -/
  | system (env : StoreEnv)

namespace Install

def certPath (w : Install) : QString := w.directory ++ str "/identity-cert.pem"
def keyPath (w : Install) : QString := w.directory ++ str "/identity-key.pem"
def cataloguePath (w : Install) : QString := w.directory ++ str "/known-devices.json"
def historyPath (w : Install) : QString := w.directory ++ str "/history.json"

def noIdentity : Certificate := ⟨[], [], [], []⟩

/-- Before the first launch. -/
structure Start (w : Install) : Prop where
  cert : w.files w.certPath = none
  key : w.files w.keyPath = none
  catalogue : w.files w.cataloguePath = none
  masterKey : w.masterKey.length = Crypto.KeyBytes
  running : w.running = false
  store : w.store = ⟨[]⟩
  identity : w.identity = noIdentity
  edits : w.edits = []

def isEncrypted (w : Install) : Bool := w.secureTransport && w.identity.isValid

/-- The file is encrypted, and this launch has no key for it. -/
def Locked (w : Install) (path : QString) : Prop :=
  w.store.isEncrypting = false ∧ ∃ contents, w.files path = some contents ∧
    SecureStore.Sealed contents

/-- A freshly installed app. -/
def installed : Install where
  directory := str "/data"
  files _ := none
  env := ⟨true, fun _ => true, fun _ => true, fun _ => true, .error []⟩
  random := fun n => some fun _ => UInt8.ofNat n
  drawn := 0
  masterKey := List.replicate 32 7
  secureTransport := false
  running := false
  store := ⟨[]⟩
  identity := noIdentity
  known := ⟨∅⟩
  edits := []

theorem installed_start : installed.Start := ⟨rfl, rfl, rfl, rfl, rfl, rfl, rfl, rfl⟩

section
variable [Gcm]

def readFile (w : Install) (path : QString) : QByteArray :=
  w.store.read (if w.env.readable path then w.files path else none)

def writeFile (path : QString) (data : QByteArray) (w : Install) : Bool × Install :=
  let nonce := Crypto.randomBytes w.random w.drawn Crypto.NonceBytes
  let (ok, files) := w.store.write w.files (w.env.commits path) path nonce data
  (ok, { w with
    files := files
    drawn := if w.store.isEncrypting then w.drawn + 1 else w.drawn })

def removeFile (path : QString) (w : Install) : Install :=
  if w.env.removes path then { w with files := Function.update w.files path none } else w

section
variable [Pem]

def loadIdentity (w : Install) : Issue :=
  let certPem := w.readFile w.certPath
  let keyPem := w.readFile w.keyPath
  if certPem = [] ∨ keyPem = [] then .error (str "stored identity is unreadable")
  else if Pem.certificate certPem = [] ∨ Pem.key keyPem = [] then
    .error (str "stored identity is not a usable key pair")
  else .ok (Pem.certificate certPem, Pem.key keyPem)

def generateIdentity (w : Install) : Issue × Install :=
  match w.env.generated with
  | .error reason => (.error reason, w)
  | .ok pem =>
    if Pem.certificate pem.certificate = [] ∨ Pem.key pem.key = [] then
      (.error (str "Qt rejected the generated key pair"), w)
    else match w.writeFile w.keyPath pem.key with
    | (false, w) => (.error (str "cannot store the identity"), w)
    | (true, w) => match w.writeFile w.certPath pem.certificate with
      | (false, w) => (.error (str "cannot store the identity"), w)
      | (true, w) => (.ok (Pem.certificate pem.certificate, Pem.key pem.key), w)

/-- What `ensure` comes to without a valid pair in memory. A pair that cannot be read is replaced. -/
def issueIdentity (w : Install) : Issue × Install :=
  if ¬ w.env.mkpath then (.error (str "cannot create " ++ w.directory), w)
  else if w.files w.certPath = none ∨ w.files w.keyPath = none then w.generateIdentity
  else match w.loadIdentity with
    | .ok pair => (.ok pair, w)
    | .error _ => ((w.removeFile w.certPath).removeFile w.keyPath).generateIdentity

def ensureIdentity [Qt] (w : Install) : Install :=
  if w.identity.isValid then w
  else
    let (issue, v) := w.issueIdentity
    { v with identity := (w.identity.ensure issue).2 }

end

variable [Qt]

def saveKnown (w : Install) : Bool × Install := w.writeFile w.cataloguePath w.known.toText

def loadKnown (w : Install) : Install :=
  { w with known := .ofText (w.readFile w.cataloguePath) }

def edit (now : Nat) (e : KnownDevices.Edit) (w : Install) : Install :=
  let w' := { w with
    known := e.apply now w.known
    edits := w.edits ++ [e] }
  if e.saves w.known then w'.saveKnown.2 else w'

variable [Pem]

def launch (opened : Bool) (w : Install) : Install :=
  let w := { w with
    running := true
    store := ⟨if opened then w.masterKey else []⟩
    identity := noIdentity }
  let w := if w.secureTransport then w.ensureIdentity else w
  w.loadKnown

def setSecureTransport (enabled : Bool) (w : Install) : Install :=
  if enabled = w.secureTransport then w
  else
    let w := { w with secureTransport := enabled }
    if enabled then w.ensureIdentity else w

def step (w : Install) : StoreEvent → Install
  | .launch opened => w.launch opened
  | .edit now e => if w.running then w.edit now e else w
  | .history text => if w.running then (w.writeFile w.historyPath text).2 else w
  | .setSecureTransport enabled => if w.running then w.setSecureTransport enabled else w
  | .system env => { w with env := env }

def system : Lib.System Install StoreEvent := ⟨Start, step⟩

end

end Install

end LocalSend
