import LocalSend.Core.DeviceInfo
import LocalSend.Core.Proof.Sanitize

/-!
# Payloads there and back

What `fromPayload` makes of a payload is written out and read again without a change
(`payload_round_trip`): each field is filtered to a fixed point of its filter, and the values that
stand in for missing ones are fixed points as well (`Settled`).
-/

set_option autoImplicit false

namespace LocalSend.DeviceInfo

/-- The fields a payload carries. -/
def carried (d : DeviceInfo) :
    QString × QString × QString × QString × QString × Bool × Int × QString :=
  (d.aliasName, d.version, d.deviceModel, d.deviceType, d.fingerprint, d.download, d.port,
    d.protocol)

/-- A device whose fields `fromPayload` leaves as they are. -/
structure Settled (d : DeviceInfo) : Prop where
  aliasName : Protocol.sanitizeText d.aliasName 64 = d.aliasName
  named : d.aliasName ≠ []
  version : Protocol.sanitizeText d.version 16 = d.version
  deviceModel : Protocol.sanitizeText d.deviceModel 64 = d.deviceModel
  deviceType : Protocol.sanitizeText d.deviceType 16 = d.deviceType
  typed : d.deviceType ≠ []
  fingerprint : Protocol.sanitizeText d.fingerprint 128 = d.fingerprint
  lowest : -2 ^ 31 ≤ d.port
  highest : d.port < 2 ^ 31
  protocol : d.protocol = str "http" ∨ d.protocol = str "https"

/-- A filtered text, or what stands in for an empty one. -/
theorem sanitized_or {text fallback : QString} {n : Nat}
    (hfallback : Protocol.sanitizeText fallback n = fallback) :
    Protocol.sanitizeText (if Protocol.sanitizeText text n = [] then fallback
      else Protocol.sanitizeText text n) n =
    if Protocol.sanitizeText text n = [] then fallback else Protocol.sanitizeText text n := by
  split
  · exact hfallback
  · exact Protocol.sanitizeText_idem text n

theorem fits_toInt (v : QJsonValue) {fallback : Int} (hlow : -2 ^ 31 ≤ fallback)
    (hhigh : fallback < 2 ^ 31) :
    -2 ^ 31 ≤ v.toInt fallback ∧ v.toInt fallback < 2 ^ 31 := by
  unfold QJsonValue.toInt
  split
  · split
    · rename_i h
      exact h.2
    · exact ⟨hlow, hhigh⟩
  · exact ⟨hlow, hhigh⟩

theorem settled_fromPayload (object : QJsonObject) : Settled (fromPayload object) := by
  unfold fromPayload
  extract_lets text portValue protocol
  have hport : -2 ^ 31 ≤ (if portValue.isDouble then portValue.toInt Protocol.DefaultPort
      else Protocol.DefaultPort) ∧ (if portValue.isDouble then portValue.toInt Protocol.DefaultPort
      else Protocol.DefaultPort) < 2 ^ 31 := by
    split
    · exact fits_toInt portValue (by decide) (by decide)
    · decide
  refine ⟨sanitized_or (by decide), ?_, Protocol.sanitizeText_idem _ 16,
    Protocol.sanitizeText_idem _ 64, sanitized_or (by decide), ?_, Protocol.sanitizeText_idem _ 128,
    hport.1, hport.2, ?_⟩
  · simp only
    split
    · decide
    · assumption
  · simp only
    split
    · decide
    · assumption
  · simp only
    split
    · exact .inr ‹_›
    · exact .inl rfl

/-! ## Reading back what was written -/

/-- An object with the fields of `toRegisterBody`, whatever else it has. -/
structure Carries (o : QJsonObject) (d : DeviceInfo) : Prop where
  aliasName : o.value (str "alias") = .string d.aliasName
  version : o.value (str "version") = .string d.version
  deviceModel : o.value (str "deviceModel") = .string d.deviceModel
  deviceType : o.value (str "deviceType") = .string d.deviceType
  fingerprint : o.value (str "fingerprint") = .string d.fingerprint
  download : o.value (str "download") = .bool d.download
  port : o.value (str "port") = .double d.port
  protocol : o.value (str "protocol") = .string d.protocol

theorem carries_toRegisterBody (d : DeviceInfo) : Carries d.toRegisterBody d :=
  ⟨rfl, rfl, rfl, rfl, rfl, rfl, rfl, rfl⟩

theorem carries_toAnnouncement (d : DeviceInfo) (announcing : Bool) :
    Carries (d.toAnnouncement announcing) d :=
  ⟨rfl, rfl, rfl, rfl, rfl, rfl, rfl, rfl⟩

/-- Nothing else of an object is read. -/
theorem Carries.fromPayload {o : QJsonObject} {d : DeviceInfo} (h : Carries o d) :
    fromPayload o = fromPayload d.toRegisterBody := by
  have h' := carries_toRegisterBody d
  unfold DeviceInfo.fromPayload
  simp only [h.aliasName, h.version, h.deviceModel, h.deviceType, h.fingerprint, h.download, h.port,
    h.protocol, h'.aliasName, h'.version, h'.deviceModel, h'.deviceType, h'.fingerprint, h'.download,
    h'.port, h'.protocol]

theorem Settled.fromPayload_carries {d : DeviceInfo} (h : Settled d) {o : QJsonObject}
    (ho : Carries o d) : (fromPayload o).carried = d.carried := by
  have hport : (QJsonValue.double d.port).toInt Protocol.DefaultPort = d.port :=
    if_pos ⟨Rat.den_intCast d.port, h.lowest, h.highest⟩
  have hprotocol : (if d.protocol = str "https" then d.protocol else str "http") = d.protocol := by
    rcases h.protocol with hp | hp <;> rw [hp] <;> rfl
  unfold fromPayload carried
  simp only [ho.aliasName, ho.version, ho.deviceModel, ho.deviceType, ho.fingerprint, ho.download,
    ho.port, ho.protocol, QJsonValue.toString, QJsonValue.toBool, QJsonValue.isDouble, h.aliasName,
    h.version, h.deviceModel, h.deviceType, h.fingerprint, if_neg h.named, if_neg h.typed, hport,
    hprotocol, if_true]

/-- A device that was read from a payload is read again from any payload it writes. -/
theorem payload_round_trip (object : QJsonObject) (announcing : Bool) :
    (fromPayload (fromPayload object).toRegisterBody).carried = (fromPayload object).carried ∧
    (fromPayload (fromPayload object).toInfoResponse).carried = (fromPayload object).carried ∧
    (fromPayload ((fromPayload object).toAnnouncement announcing)).carried =
      (fromPayload object).carried := by
  have h := settled_fromPayload object
  exact ⟨h.fromPayload_carries (carries_toRegisterBody _),
    h.fromPayload_carries (carries_toRegisterBody _),
    h.fromPayload_carries (carries_toAnnouncement _ announcing)⟩

end LocalSend.DeviceInfo
