import LocalSend.Lib.Run
import LocalSend.Send.Discovery
import LocalSend.Send.Service
import LocalSend.Store.Catalogue

/-!
# What can happen to the sending side

The events: payloads from the network, timers, the user, and what becomes of a request. A reply is
finished once, by an answer, by an error, or because its peer was refused.
-/

set_option autoImplicit false

namespace LocalSend

inductive SenderEvent
  | datagram (payload : QJsonObject) (address : QString)
  /-- Somebody posts to our `/register`. -/
  | register (payload : QJsonObject) (address : QString)
  | announceTimer
  /-- An announcement falls due that `start` scheduled. -/
  | burst
  | start (binds : Bool)
  | stop
  | refresh (binds : Bool)
  | addDeviceAt (host : QString) (port : Int)
  | scanSubnet (mine : List QString)
  | cancelScan
  /-- A request meets a server with this certificate, and Qt reports errors or does not. -/
  | connects (id : ReplyId) (certificate : QByteArray) (reported : Bool)
  | uploadProgress (id : ReplyId) (sent : Int)
  | answered (id : ReplyId) (error : Bool) (status : Nat) (errorString : QString)
    (body : QByteArray)
  | fails (id : ReplyId) (errorString : QString)
  /-- A page takes a row of the device list. -/
  | hold (row : Nat)
  | sendFiles (device : DeviceInfo) (paths : List QString)
  | submitPin (pin : QString)
  | cancel
  | edit (e : KnownDevices.Edit)
  | settings (s : AppSettings)
  | files (files : QString → Option LocalFile)
  | tick (ms : Nat)

namespace Sender

variable [Qt]

/-- `finished` of a reply: its slot runs. -/
def finish (id : ReplyId) (r : QNetworkReply) (error : Bool) (status : Nat)
    (errorString : QString) (body : QByteArray) (w : Sender) : Sender :=
  let w := w.setReply id none
  match r.request.slot with
  | .registered => w.onRegisterFinished r error body
  | .refreshed => (w.acceptRegisterReply r error body).2
  | .manual => w.onManualReplyFinished r error body
  | .scanned => w.onScanReplyFinished r error body
  | .prepared => w.onPrepareFinished id error status body
  | .uploaded _ => w.onUploadFinished id error status errorString
  | .ignored => w

/-- The end of a handshake, or of a connection attempt without one. -/
def connect (id : ReplyId) (r : QNetworkReply) (certificate : QByteArray) (reported : Bool)
    (w : Sender) : Sender :=
  if r.sent then w
  else if r.request.connects certificate reported then
    let seen := if r.request.isSecure then some certificate else none
    (w.setReply id (some { r with
      sent := true
      certificate := seen.getD [] })).emit (.sent r.request seen)
  else w.finish id r true 0 (str "SSL handshake failed") []

def step (w : Sender) : SenderEvent → Sender
  | .datagram payload address =>
    if w.discovery.socket then w.handlePayload payload address else w
  | .register payload address => w.registerPeer payload address
  | .announceTimer => if w.discovery.running then w.announce else w
  | .burst => w.burst
  | .start binds => w.startDiscovery binds
  | .stop => w.stopDiscovery
  | .refresh binds => w.refresh binds
  | .addDeviceAt host port => w.addDeviceAt host port
  | .scanSubnet mine => w.scanSubnet mine
  | .cancelScan => w.cancelScan
  | .connects id certificate reported =>
    match w.replies id with
    | some r => w.connect id r certificate reported
    | none => w
  | .uploadProgress id sent =>
    match w.replies id with
    | some ⟨⟨_, _, _, _, _, .uploaded row⟩, true, _⟩ =>
      { w with transfer := w.transfer.setFileTransferred row sent }
    | _ => w
  | .answered id error status errorString body =>
    match w.replies id with
    | some r => if r.sent then w.finish id r error status errorString body else w
    | none => w
  | .fails id errorString =>
    match w.replies id with
    | some r => w.finish id r true 0 errorString []
    | none => w
  | .hold row =>
    match w.devices.devices[row]? with
    | some device => { w with held := w.held ++ [device] }
    | none => w
  | .sendFiles device paths => if device ∈ w.held then w.sendFiles device paths else w
  | .submitPin pin => w.submitPin pin
  | .cancel => w.cancel
  | .edit e => { w with known := e.apply w.now w.known }
  | .settings s => { w with settings := s }
  | .files files => { w with files := files }
  | .tick ms => { w with now := w.now + ms }

/-- The app has just been started. -/
structure Start (w : Sender) : Prop where
  devices : w.devices = ⟨[]⟩
  transfer : w.transfer = {}
  service : w.service = {}
  discovery : w.discovery = { manualDevices := w.discovery.manualDevices }
  replies : w.replies = fun _ => none
  held : w.held = []
  log : w.log = []
  signals : w.signals = []

def system : Lib.System Sender SenderEvent := ⟨Start, step⟩

omit [Qt] in
/-- The app with these settings, nobody on record, and these files. -/
def fresh (settings : AppSettings) (files : QString → Option LocalFile) : Sender where
  settings := settings
  known := ⟨∅⟩
  devices := ⟨[]⟩
  transfer := {}
  history := ⟨[]⟩
  service := {}
  discovery := {}
  replies _ := none
  nextReply := 0
  files := files
  held := []
  random := countingSource
  drawn := 0
  now := 0
  log := []
  signals := []

omit [Qt] in
theorem fresh_start (settings : AppSettings) (files : QString → Option LocalFile) :
    (fresh settings files).Start := ⟨rfl, rfl, rfl, rfl, rfl, rfl, rfl, rfl⟩

end Sender

end LocalSend
