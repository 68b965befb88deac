import LocalSend.Lib.Run
import LocalSend.Receive.Service

/-!
# Runs of the receiving side

The events a running application sees, with the signal connections of `main` and of the service's
constructor, and what each does to the world. An event that cannot happen in a state (a timer that
is not armed, a socket that is gone) does nothing there.
-/

set_option autoImplicit false

namespace LocalSend

inductive Event
  /-- A connection, with the certificate its client presents in a TLS handshake. -/
  | connect (address : QString) (certificate : Option QByteArray)
  | readyRead (i : ConnId) (data : QByteArray)
  | disconnected (i : ConnId)
  | idleTimeout (i : ConnId)
  | headerDeadline (i : ConnId)
  | accept
  | decline
  | cancel
  | acceptTimeout
  | sessionIdle
  | startListening
  | stopListening
  | setPort (port : Int)
  | setSecureTransport (enabled : Bool)
  | setReceiveEnabled (enabled : Bool)
  | setQuickSave (enabled : Bool)
  | setFolderPerSender (enabled : Bool)
  | setHistoryEnabled (enabled : Bool)
  | setPinEnabled (enabled : Bool)
  | setPin (pin : QString)
  | setDestination (path : QString)
  | setBlocked (fingerprint aliasName : QString) (blocked : Bool)
  | forget (fingerprint : QString)
  | forgetAll
  /-- Discovery found or lost devices. -/
  | discovered (devices : DeviceModel)
  /-- The system will answer differently from now on. -/
  | system (env : Env)
  /-- Other programs changed files, but not those being received. -/
  | otherFiles (disk : Disk)
  /-- Whether the socket goes down as soon as an answer is written. -/
  | fate (i : ConnId) (hangsUp : Bool)
  | tick (milliseconds : Nat)

/-! ## A device to run things on -/

/-- A system that grants everything. -/
def Env.obliging : Env where
  mkpath _ := true
  opens _ := true
  writable _ := 1000000
  kept _ := 1000000
  removes _ := true
  renames _ _ := true
  binds _ := none
  issue := .ok ([1], [2])

/-- A request of a body of known length. -/
def post (target body : QByteArray) : QByteArray :=
  ascii "POST " ++ target ++ ascii " HTTP/1.1" ++ crlf ++ ascii "Content-Length: "
    ++ QByteArray.number body.length ++ crlf ++ crlf ++ body

/-- The target of an upload. -/
def uploadTarget (sessionId fileId token : QString) : QByteArray :=
  ascii "/api/localsend/v2/upload?sessionId=" ++ sessionId.map (·.toUInt8) ++ ascii "&fileId="
    ++ fileId.map (·.toUInt8) ++ ascii "&token=" ++ token.map (·.toUInt8)

/-- A prepare-upload for these descriptors. -/
def offer (aliasName fingerprint : QString) (files : QJsonObject) : QJsonObject := [
  (str "files", .object files),
  (str "info", .object [
    (str "alias", .string aliasName),
    (str "fingerprint", .string fingerprint)])]

def descriptor (fileName : QString) (size : Nat) : QJsonValue := .object [
  (str "fileName", .string fileName),
  (str "size", .double size)]

namespace World

/-- The connection is there: it came in, and has not reported its end. -/
def live (w : World) (i : ConnId) : Bool := i < w.nextConn && !(w.conns i).closedEmitted

def due (timer : Option Nat) (now : Nat) : Bool :=
  match timer with
  | some t => t ≤ now
  | none => false

/-- As the constructors leave everything, before the first event. -/
structure Start (w : World) : Prop where
  transfer : w.transfer = {}
  nextConn : w.nextConn = 0
  conns : ∀ i, (w.conns i).sink = none ∧ (w.conns i).state = .responded
  pending : w.pending = none
  sessionId : w.sessionId = []
  tokens : w.tokens = ∅
  uploads : w.uploads = ∅
  handles : ∀ f, w.handles f = none
  server : w.server = {}
  port : 1024 ≤ w.settings.port ∧ w.settings.port ≤ 65535
  drawn : w.drawn = 0
  log : w.log = []

/-- A world as the constructors leave it. -/
def fresh (settings : AppSettings) (env : Env) (random : Crypto.Random) : World where
  settings := settings
  server := {}
  known := ⟨∅⟩
  devices := ⟨[]⟩
  discovering := false
  history := ⟨[]⟩
  transfer := {}
  conns _ := { HttpConnection.accepted 0 [] none with state := .responded }
  nextConn := 0
  pending := none
  peer := {}
  sessionId := []
  sessionAddress := []
  sessionDirectory := []
  tokens := ∅
  uploads := ∅
  acceptTimer := false
  idleTimer := false
  listenError := []
  pinAttempts := ⟨∅⟩
  handles _ := none
  disk _ := none
  env := env
  random := random
  drawn := 0
  now := 0
  log := []

theorem fresh_start {settings : AppSettings} (env : Env) (random : Crypto.Random)
    (h : 1024 ≤ settings.port ∧ settings.port ≤ 65535) : Start (fresh settings env random) where
  transfer := rfl
  nextConn := rfl
  conns _ := ⟨rfl, rfl⟩
  pending := rfl
  sessionId := rfl
  tokens := rfl
  uploads := rfl
  handles _ := rfl
  server := rfl
  port := h
  drawn := rfl
  log := rfl

section
variable [Qt]

def connect (address : QString) (certificate : Option QByteArray) (w : World) : World :=
  let certificate := if w.server.isSecure then certificate.filter (· ≠ []) else none
  { w.setConn w.nextConn (.accepted w.now address certificate) with nextConn := w.nextConn + 1 }

def setReceiveEnabled (enabled : Bool) (w : World) : World :=
  match w.settings.setReceiveEnabled enabled with
  | (false, _) => w
  | (true, settings) =>
    let w := { w with settings := settings }
    if settings.receiveEnabled then { w.startListening with discovering := true }
    else
      let w := w.stopListening
      { w with
        discovering := false
        devices := if w.discovering then w.devices.clear else w.devices }

def setPort (port : Int) (w : World) : World :=
  match w.settings.setPort port with
  | (false, _) => w
  | (true, settings) => onSettingsChanged { w with settings := settings }

def step (w : World) : Event → World
  | .connect address certificate =>
    if w.server.isListening then w.connect address certificate else w
  | .readyRead i data => if w.live i then (host i).onReadyRead data w else w
  | .disconnected i => if w.live i then (port i).hangUp w else w
  | .idleTimeout i =>
    if w.live i ∧ due (w.conns i).idleTimer w.now then (port i).onIdleTimeout w else w
  | .headerDeadline i =>
    if w.live i ∧ due (w.conns i).headerDeadline w.now then (port i).onHeaderDeadline w else w
  | .accept => w.accept
  | .decline => w.decline
  | .cancel => w.cancel
  | .acceptTimeout => if w.acceptTimer then onAcceptTimeout { w with acceptTimer := false } else w
  | .sessionIdle => if w.idleTimer then onSessionIdle { w with idleTimer := false } else w
  | .startListening => w.startListening
  | .stopListening => w.stopListening
  | .setPort port => w.setPort port
  -- `secureTransportChanged` is connected to nothing that listens
  | .setSecureTransport enabled =>
    { w with settings := (w.settings.setSecureTransport enabled w.env.issue).2 }
  | .setReceiveEnabled enabled => w.setReceiveEnabled enabled
  | .setQuickSave enabled => { w with settings := { w.settings with quickSave := enabled } }
  | .setFolderPerSender enabled =>
    { w with settings := { w.settings with folderPerSender := enabled } }
  | .setHistoryEnabled enabled =>
    { w with settings := { w.settings with historyEnabled := enabled } }
  | .setPinEnabled enabled => { w with settings := { w.settings with pinEnabled := enabled } }
  | .setPin pin => { w with
      settings := w.settings.setPin pin (Crypto.randomBytes w.random w.drawn PinSaltBytes)
      drawn := w.drawn + 1 }
  | .setDestination path => { w with settings := w.settings.setDestination path }
  | .setBlocked fingerprint aliasName blocked =>
    { w with known := w.known.setBlocked w.now fingerprint aliasName blocked }
  | .forget fingerprint => { w with known := w.known.forget w.now fingerprint }
  | .forgetAll => { w with known := w.known.forgetAll w.now }
  | .discovered devices => { w with devices := devices }
  | .system env => { w with env := env }
  | .otherFiles disk =>
    if w.uploads.entries.all fun e => disk e.2.partPath = w.disk e.2.partPath then
      { w with disk := disk }
    else w
  | .fate i hangsUp => w.setConn i { w.conns i with hangsUp := hangsUp }
  | .tick milliseconds => { w with
      now := w.now + milliseconds
      conns := fun i => { w.conns i with now := w.now + milliseconds } }

def system : Lib.System World Event := ⟨Start, step⟩

/-- What `i` has made of a segment when the service is handed the request, should it be in now. -/
def heard (i : ConnId) (data : QByteArray) (w : World) : World := (host i).mute.onReadyRead data w

/-- The segment completes the request of `i`. -/
def Completes (w : World) (i : ConnId) (data : QByteArray) : Prop :=
  w.live i = true ∧ (w.conns i).bodyComplete = false ∧
    ((w.heard i data).conns i).bodyComplete = true

end

end World

end LocalSend
