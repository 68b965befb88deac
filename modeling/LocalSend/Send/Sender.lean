import LocalSend.Core.Settings
import LocalSend.Models.Devices
import LocalSend.Models.History
import LocalSend.Models.Transfer

/-!
# The sending side and what it runs in

`Sender` is one flat record: the members of `Discovery` and of `SendService`, the objects they are
given, and the requests that are under way in the network manager. Three members are ghosts: `log`,
what left the device, each entry with the trust record and the transport setting of that moment,
`signals`, what the pages were told of the transfers, and `scanFinishes` of `Discovery`.

A request is posted, connects, and is answered; each of these is an event. Over TLS the certificate
of the other side is checked by what `TlsClient` connected to `sslErrors`, a signal that Qt emits
if it has something to report.
-/

set_option autoImplicit false

namespace LocalSend

/-- What a request carries. -/
inductive Content
  | introduction (body : QByteArray)
  | fileList (pin : QString) (body : QByteArray)
  | fileBytes (sessionId fileId token : QString) (length : Int) (bytes : QByteArray)
  | cancellation (sessionId : QString)

/-- The slot that hears that a request is finished. -/
inductive ReplySlot
  | registered
  | refreshed
  | manual
  | scanned
  | prepared
  /-- An upload of the row whose progress is tracked. -/
  | uploaded (trackedRow : Nat)
  | ignored

/-- The slots of `SendService`. -/
def ReplySlot.isTransfer : ReplySlot → Bool
  | .prepared => true
  | .uploaded _ => true
  | _ => false

/-- The slots of `Discovery`: the request introduces this device to another one. -/
def ReplySlot.isGreeting : ReplySlot → Bool
  | .registered | .refreshed | .manual | .scanned => true
  | _ => false

namespace TlsClient

/-- What is connected to `sslErrors`: `pin`, or `acceptUnknown`. -/
inductive Policy
  | pin (expected : QString)
  | acceptUnknown

/-- The errors are ignored: the certificate is the expected one, or any will do. -/
def Policy.ignores [Qt] : Policy → QByteArray → Bool
  | .pin expected, certificate => expected ≠ [] && certificate ≠ [] &&
      Crypto.equalsFold (Certificate.fingerprintOf certificate) expected
  | .acceptUnknown, _ => true

end TlsClient

/-- A request, with the parts of its URL. -/
structure QNetworkRequest where
  scheme : QString
  host : QString
  port : Int
  policy : TlsClient.Policy
  content : Content
  slot : ReplySlot

namespace QNetworkRequest

def isSecure (r : QNetworkRequest) : Bool := r.scheme = str "https"

/-- The request is sent to a server with this certificate: without TLS, with nothing reported, or
with the errors ignored. -/
def connects [Qt] (r : QNetworkRequest) (certificate : QByteArray) (reported : Bool) : Bool :=
  !r.isSecure || !reported || r.policy.ignores certificate

end QNetworkRequest

structure QNetworkReply where
  request : QNetworkRequest
  sent : Bool := false
  /-- The certificate of the peer, empty before there is one. -/
  certificate : QByteArray := []

abbrev ReplyId := Nat

inductive Outbound
  /-- A multicast announcement. -/
  | announced
  /-- A unicast announcement to a peer that presented this fingerprint. -/
  | answered (address fingerprint : QString)
  | posted (request : QNetworkRequest)
  /-- The request left the device, for a peer with this certificate or in the clear. -/
  | sent (request : QNetworkRequest) (certificate : Option QByteArray)

/-- Sent to a group or to an address, without a request. -/
def Outbound.isDatagram : Outbound → Bool
  | .announced | .answered .. => true
  | _ => false

structure LogEntry where
  known : KnownDevices
  encrypted : Bool
  what : Outbound

/-- What the pages hear of a transfer. -/
inductive TransferSignal
  | finished (status : QString) (files : Nat)
  | pinRequired (retry : Bool)
  | declined
  deriving DecidableEq

/-- A file that can be read. -/
structure LocalFile where
  content : QByteArray
  mimeType : QString
  opens : Bool

structure SendService where
  peer : DeviceInfo := {}
  sessionId : QString := []
  reply : Option ReplyId := none
  currentFile : Option QString := none
  currentRow : Option Nat := none
  busy : Bool := false
  cancelled : Bool := false
  pinAttempted : Bool := false

structure Discovery where
  running : Bool := false
  socket : Bool := false
  /-- The announcements that `start` scheduled, apart from the timer's. -/
  bursts : Nat := 0
  lastResponse : AList (fun _ : QString => Nat) := ∅
  /-- `AppSettings::manualDevices`, each split at its last colon. -/
  manualDevices : List (QString × Int) := []
  /-- The scheme and the host of what is still to be tried. -/
  scanQueue : List (QString × QString) := []
  scanTotal : Nat := 0
  scanDone : Nat := 0
  scanInFlight : Nat := 0
  scanning : Bool := false
  /-- How often `finishScan` ran. -/
  scanFinishes : Nat := 0
  manualPending : Nat := 0
  manualFound : Bool := false
  manualEndpoint : QString × Int := ([], 0)

structure Sender where
  settings : AppSettings
  known : KnownDevices
  devices : DeviceModel
  transfer : TransferModel
  history : HistoryModel
  service : SendService
  discovery : Discovery
  replies : ReplyId → Option QNetworkReply
  nextReply : ReplyId
  files : QString → Option LocalFile
  /-- The rows that pages of the app hold, each as `DeviceModel::get` gave it. -/
  held : List DeviceInfo
  random : Crypto.Random
  drawn : Nat
  now : Nat
  log : List LogEntry
  signals : List TransferSignal

namespace Sender

def emit (what : Outbound) (w : Sender) : Sender :=
  { w with log := w.log ++ [⟨w.known, w.settings.isEncrypted, what⟩] }

def signal (s : TransferSignal) (w : Sender) : Sender := { w with signals := w.signals ++ [s] }

def setReply (id : ReplyId) (r : Option QNetworkReply) (w : Sender) : Sender :=
  { w with replies := Function.update w.replies id r }

/-- `QNetworkAccessManager::post`. -/
def post (r : QNetworkRequest) (w : Sender) : Sender :=
  { w.setReply w.nextReply (some { request := r }) with nextReply := w.nextReply + 1 }.emit
    (.posted r)

/-- A request to a device, as `apiBase` spells its URL. -/
def requestTo (peer : DeviceInfo) (content : Content) (slot : ReplySlot) : QNetworkRequest where
  scheme := if peer.protocol = [] then str "http" else peer.protocol
  host := peer.address
  port := peer.port
  policy := .pin peer.fingerprint
  content := content
  slot := slot

def setState (state : TransferState) (error : QString) (w : Sender) : Sender :=
  { w with transfer := w.transfer.setState state error }

def setFileStatus (row : Nat) (status : FileStatus) (error : QString) (w : Sender) : Sender :=
  { w with transfer := w.transfer.setFileStatus row status error }

def generateToken (w : Sender) : QString × Sender :=
  (Crypto.generateToken w.random w.drawn, { w with drawn := w.drawn + 1 })

end Sender

end LocalSend
