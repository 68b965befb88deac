import LocalSend.Lib.Backed
import LocalSend.Models.History
import LocalSend.Store.Launches

/-!
# The history as a document

How `HistoryModel` is written to its file and read back, and the app as the history sees it: the
launches, the calls that change the list, and what else is written to the disk (`Archive`).
-/

set_option autoImplicit false

namespace LocalSend

/-- JSON texts that are arrays, as `Qt` has those that are objects. -/
class QtArrays where
  fromJson : QByteArray → Option (List QJsonValue)
  toJson : List QJsonValue → QByteArray

/-- `double(n)` of a `qint64`. -/
def doubleOfInt (n : Int) : Rat := if n < 0 then -doubleOf n.natAbs else doubleOf n.natAbs

def QJsonValue.toArray : QJsonValue → List QJsonValue
  | .array values => values
  | _ => []

namespace HistoryModel

def Record.document (r : Record) : QJsonObject := [
  (str "destination", .string r.destination),
  (str "direction", .string r.direction),
  (str "fileNames", .array (r.fileNames.map .string)),
  (str "id", .string r.id),
  (str "peerAlias", .string r.peerAlias),
  (str "peerDeviceType", .string r.peerDeviceType),
  (str "status", .string r.status),
  (str "timestamp", .double (doubleOf r.timestamp)),
  (str "totalBytes", .double (doubleOfInt r.totalBytes))]

def document (h : HistoryModel) : List QJsonValue := h.records.map fun r => .object r.document

variable [Qt] [QtArrays]

def toText (h : HistoryModel) : QByteArray := QtArrays.toJson h.document

omit [QtArrays] in
def Record.ofDocument (object : QJsonObject) : Record where
  id := (object.value (str "id")).toString []
  direction := (object.value (str "direction")).toString []
  peerAlias := (object.value (str "peerAlias")).toString []
  peerDeviceType := (object.value (str "peerDeviceType")).toString []
  timestamp := (qint64 (object.value (str "timestamp")).toDouble).toNat
  fileNames := (object.value (str "fileNames")).toArray.map fun name => name.toString []
  totalBytes := qint64 (object.value (str "totalBytes")).toDouble
  status := (object.value (str "status")).toString []
  destination := (object.value (str "destination")).toString []

/-- What is not an array is no history. -/
def ofText (text : QByteArray) : HistoryModel :=
  match QtArrays.fromJson text with
  | some array => ⟨array.map fun value => Record.ofDocument value.toObject⟩
  | none => ⟨[]⟩

end HistoryModel

/-- The installed app and the list it shows. -/
structure Archive where
  install : Install
  history : HistoryModel

inductive ArchiveEvent
  | launch (opened : Bool)
  | history (e : HistoryModel.Edit)
  | edit (now : Nat) (e : KnownDevices.Edit)
  | setSecureTransport (enabled : Bool)
  | system (env : StoreEnv)

namespace Archive

structure Start (w : Archive) : Prop where
  install : w.install.Start
  file : w.install.files w.install.historyPath = none
  history : w.history = ⟨[]⟩

variable [Qt] [QtArrays] [Gcm] [Pem]

def load (w : Archive) : Archive :=
  { w with history := .ofText (w.install.readFile w.install.historyPath) }

def save (w : Archive) : Bool × Archive :=
  let (ok, install) := w.install.writeFile w.install.historyPath w.history.toText
  (ok, { w with install := install })

def edit (e : HistoryModel.Edit) (w : Archive) : Archive :=
  let v := { w with history := e.apply w.history }
  if e.saves w.history then v.save.2 else v

def step (w : Archive) : ArchiveEvent → Archive
  | .launch opened => load { w with install := w.install.launch opened }
  | .history e => if w.install.running then w.edit e else w
  | .edit now e => { w with install := w.install.step (.edit now e) }
  | .setSecureTransport enabled => { w with install := w.install.step (.setSecureTransport enabled) }
  | .system env => { w with install := w.install.step (.system env) }

def system : Lib.System Archive ArchiveEvent := ⟨Start, step⟩

end Archive

end LocalSend
