import LocalSend.Core.Protocol
import LocalSend.Qt.Arg

/-!
# Devices as their payloads describe them
-/

set_option autoImplicit false

namespace LocalSend

structure DeviceInfo where
  aliasName : QString := []
  version : QString := []
  deviceModel : QString := []
  deviceType : QString := []
  fingerprint : QString := []
  port : Int := Protocol.DefaultPort
  protocol : QString := str "http"
  download : Bool := false
  address : QString := []
  lastSeen : Nat := 0
  deriving DecidableEq

namespace DeviceInfo

def isValid (d : DeviceInfo) : Bool := d.fingerprint ≠ []

/-- `QString::arg` of an `int`. -/
def decimal (n : Int) : QString := (if n < 0 then [45] else []) ++ QString.number n.natAbs

def apiBase (d : DeviceInfo) : QString :=
  let base := QString.arg (str "%1://%2:%3%4") (if d.protocol = [] then str "http" else d.protocol)
  QString.arg (QString.arg (QString.arg base d.address) (decimal d.port)) Protocol.ApiPrefix

def toRegisterBody (d : DeviceInfo) : QJsonObject := [
  (str "alias", .string d.aliasName),
  (str "deviceModel", .string d.deviceModel),
  (str "deviceType", .string d.deviceType),
  (str "download", .bool d.download),
  (str "fingerprint", .string d.fingerprint),
  (str "port", .double d.port),
  (str "protocol", .string d.protocol),
  (str "version", .string d.version)]

def toInfoResponse (d : DeviceInfo) : QJsonObject := d.toRegisterBody

def toAnnouncement (d : DeviceInfo) (announcing : Bool) : QJsonObject :=
  QJsonObject.insert d.toRegisterBody (str "announce") (.bool announcing)

/-- Every string of a payload is filtered before it is kept. -/
def fromPayload (object : QJsonObject) : DeviceInfo :=
  let text (key : String) (maxLength : Nat) :=
    Protocol.sanitizeText ((object.value (str key)).toString []) maxLength
  let portValue := object.value (str "port")
  let protocol := (object.value (str "protocol")).toString []
  { aliasName := if text "alias" 64 = [] then str "Unknown device" else text "alias" 64
    version := text "version" 16
    deviceModel := text "deviceModel" 64
    deviceType := if text "deviceType" 16 = [] then str "desktop" else text "deviceType" 16
    fingerprint := text "fingerprint" 128
    download := (object.value (str "download")).toBool false
    port := if portValue.isDouble then portValue.toInt Protocol.DefaultPort else Protocol.DefaultPort
    protocol := if protocol = str "https" then protocol else str "http" }

theorem fromPayload_aliasName_clean (object : QJsonObject) :
    Protocol.Clean (fromPayload object).aliasName := by
  unfold fromPayload
  simp only
  split
  · decide
  · exact Protocol.sanitizeText_clean _ _

end DeviceInfo

end LocalSend
