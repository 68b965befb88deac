import LocalSend.Send.Sender

/-!
# Finding devices

The functions of `Discovery`, under its names. Whether the socket can be bound, and what the
addresses of this device are, is passed in.
-/

set_option autoImplicit false

namespace LocalSend

def DeviceMaxAgeSeconds : Nat := 70
def ScanWindow : Nat := 24
def ResponseCooldownMs : Nat := 10 * 1000
def MaxTrackedResponders : Nat := 256

namespace Sender

variable [Qt]

def registerBody (w : Sender) : QByteArray := Qt.toJson w.settings.self.toRegisterBody

def upsert (peer : DeviceInfo) (w : Sender) : Sender :=
  { w with devices := (w.devices.upsert w.known w.now peer).2 }

/-- Any certificate will do: nothing is known of who is there. -/
def probe (host : QString) (port : Int) (scheme : QString) (slot : ReplySlot) (w : Sender) :
    Sender :=
  w.post {
    scheme := scheme
    host := host
    port := port
    policy := .acceptUnknown
    content := .introduction w.registerBody
    slot := slot }

/-- The peer a reply to `/register` describes, reached where the request went. -/
def peerOf (r : QNetworkReply) (object : QJsonObject) : DeviceInfo :=
  let peer := DeviceInfo.fromPayload object
  { peer with
    address := r.request.host
    protocol := r.request.scheme
    port := if peer.port ≤ 0 then r.request.port else peer.port }

def acceptRegisterReply (r : QNetworkReply) (error : Bool) (body : QByteArray) (w : Sender) :
    Bool × Sender :=
  if error then (false, w)
  else match Qt.fromJson body with
    | none => (false, w)
    | some object =>
      let peer := peerOf r object
      if ¬ peer.isValid ∨ peer.fingerprint = w.settings.fingerprint then (false, w)
      else
        let observed := Certificate.fingerprintOf r.certificate
        if observed ≠ [] ∧ ¬ Crypto.equalsFold observed peer.fingerprint then (false, w)
        else (true, w.upsert peer)

/-- Both transports are tried. -/
def probeBoth (host : QString) (port : Int) (slot : ReplySlot) (w : Sender) : Sender :=
  (w.probe host port (str "https") slot).probe host port (str "http") slot

def refreshManualDevices (w : Sender) : Sender :=
  w.discovery.manualDevices.foldl (fun w (host, port) =>
    if host = [] ∨ port ≤ 0 then w else w.probeBoth host port .refreshed) w

def sendAnnouncement (w : Sender) : Sender := if w.discovery.socket then w.emit .announced else w

def announce (w : Sender) : Sender :=
  let w := w.sendAnnouncement.refreshManualDevices
  { w with devices := w.devices.prune w.now DeviceMaxAgeSeconds }

def startDiscovery (binds : Bool) (w : Sender) : Sender :=
  if w.discovery.running then w
  else
    let w := { w with discovery := { w.discovery with running := true, socket := binds } }
    if binds then
      let w := w.announce
      { w with discovery := { w.discovery with bursts := w.discovery.bursts + 2 } }
    else w

/-- One of the announcements that `startDiscovery` scheduled. -/
def burst (w : Sender) : Sender :=
  if w.discovery.bursts = 0 then w
  else { w with discovery := { w.discovery with bursts := w.discovery.bursts - 1 } }.announce

def stopDiscovery (w : Sender) : Sender :=
  if ¬ w.discovery.running then w
  else { w with
    discovery := { w.discovery with running := false, socket := false }
    devices := w.devices.clear }

def refresh (binds : Bool) (w : Sender) : Sender :=
  if w.discovery.running then w.announce else w.startDiscovery binds

def postRegister (peer : DeviceInfo) (w : Sender) : Sender :=
  if peer.address = [] then w
  else w.post (requestTo peer (.introduction w.registerBody) .registered)

/-- The address was answered less than `ResponseCooldownMs` ago. -/
def isCooling (w : Sender) (address : QString) : Bool :=
  match w.discovery.lastResponse.lookup address with
  | some seen => w.now - seen < ResponseCooldownMs
  | none => false

def respondTo (peer : DeviceInfo) (w : Sender) : Sender :=
  if w.isCooling peer.address then w
  else
    let table := if w.discovery.lastResponse.entries.length ≥ MaxTrackedResponders then ∅
      else w.discovery.lastResponse
    let w := { w with
      discovery := { w.discovery with lastResponse := table.insert peer.address w.now } }
    let w := if w.discovery.socket then w.emit (.answered peer.address peer.fingerprint) else w
    w.postRegister peer

def handlePayload (payload : QJsonObject) (address : QString) (w : Sender) : Sender :=
  let peer := DeviceInfo.fromPayload payload
  if ¬ peer.isValid ∨ peer.fingerprint = w.settings.fingerprint then w
  else
    let peer := { peer with address := address }
    let w := w.upsert peer
    if (payload.value (str "announce")).toBool false then w.respondTo peer else w

def onRegisterFinished (r : QNetworkReply) (error : Bool) (body : QByteArray) (w : Sender) : Sender :=
  if error then w
  else match Qt.fromJson body with
    | none => w
    | some object =>
      let peer := peerOf r object
      if ¬ peer.isValid ∨ peer.fingerprint = w.settings.fingerprint then w else w.upsert peer

def registerPeer (payload : QJsonObject) (address : QString) (w : Sender) : Sender :=
  let peer := DeviceInfo.fromPayload payload
  if ¬ peer.isValid ∨ peer.fingerprint = w.settings.fingerprint then w
  else w.upsert { peer with address := address }

/-- What was typed, with its port split off. -/
def addDeviceAt (host : QString) (port : Int) (w : Sender) : Sender :=
  if w.discovery.manualPending > 0 ∨ host = [] then w
  else
    let port := if port ≤ 0 ∨ port > 65535 then Protocol.DefaultPort else port
    { w with discovery := { w.discovery with
      manualEndpoint := (host, port)
      manualFound := false
      manualPending := 2 } }.probeBoth host port .manual

/-- The first transport that is answered wins. -/
def onManualReplyFinished (r : QNetworkReply) (error : Bool) (body : QByteArray) (w : Sender) :
    Sender :=
  let w := { w with
    discovery := { w.discovery with manualPending := w.discovery.manualPending - 1 } }
  if w.discovery.manualFound then w
  else
    let (ok, w) := w.acceptRegisterReply r error body
    if ok then { w with discovery := { w.discovery with
      manualFound := true
      manualDevices := if w.discovery.manualEndpoint ∈ w.discovery.manualDevices
        then w.discovery.manualDevices
        else w.discovery.manualDevices ++ [w.discovery.manualEndpoint] } }
    else w

def scanProgress (w : Sender) : Nat :=
  if ¬ w.discovery.scanning ∨ w.discovery.scanTotal = 0 then 0
  else w.discovery.scanDone * 100 / w.discovery.scanTotal

def finishScan (w : Sender) : Sender :=
  { w with discovery := { w.discovery with
    scanning := false
    scanTotal := 0
    scanDone := 0
    scanFinishes := w.discovery.scanFinishes + 1 } }

/-- Probes as long as the window has room. -/
def pumpQueue : List (QString × QString) → Sender → Sender
  | [], w => { w with discovery := { w.discovery with scanQueue := [] } }
  | (scheme, host) :: rest, w =>
    if w.discovery.scanInFlight < ScanWindow then
      let w := w.probe host w.settings.port scheme .scanned
      pumpQueue rest { w with
        discovery := { w.discovery with scanInFlight := w.discovery.scanInFlight + 1 } }
    else { w with discovery := { w.discovery with scanQueue := (scheme, host) :: rest } }

def pumpScanQueue (w : Sender) : Sender :=
  let w := if w.discovery.scanning then pumpQueue w.discovery.scanQueue w else w
  if w.discovery.scanning ∧ w.discovery.scanQueue = [] ∧ w.discovery.scanInFlight = 0 then
    w.finishScan
  else w

/-- The /24 of an address, up to its last dot. -/
def subnet (address : QString) : QString := (address.reverse.dropWhile (· != 46)).reverse

/-- Every address of the /24 around each of our own, on both transports. -/
def scanTargets (mine : List QString) : List (QString × QString) :=
  (((mine.map subnet).filter (·.length > 1)).eraseDups.flatMap fun subnet =>
    ((List.range' 1 254).map fun host => subnet ++ QString.number host).filter
      fun address => address ∉ mine).flatMap fun address =>
        [(str "https", address), (str "http", address)]

def scanSubnet (mine : List QString) (w : Sender) : Sender :=
  if w.discovery.scanning then w
  else
    let queue := scanTargets mine
    let w := { w with discovery := { w.discovery with scanQueue := queue } }
    if queue = [] then w
    else { w with
      discovery := { w.discovery with
        scanTotal := queue.length
        scanDone := 0
        scanInFlight := 0
        scanning := true } }.pumpScanQueue

def onScanReplyFinished (r : QNetworkReply) (error : Bool) (body : QByteArray) (w : Sender) : Sender :=
  let w := { w with
    discovery := { w.discovery with
      scanInFlight := w.discovery.scanInFlight - 1
      scanDone := w.discovery.scanDone + 1 } }
  (w.acceptRegisterReply r error body).2.pumpScanQueue

def cancelScan (w : Sender) : Sender :=
  if ¬ w.discovery.scanning then w
  else
    let w := { w with discovery := { w.discovery with scanQueue := [] } }
    if w.discovery.scanInFlight = 0 then w.finishScan else w

end Sender

end LocalSend
