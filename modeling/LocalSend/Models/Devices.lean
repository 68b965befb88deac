import LocalSend.Core.Crypto
import LocalSend.Core.DeviceInfo
import Mathlib.Data.List.AList

/-!
# The trust record and the device list

`KnownDevices` and `DeviceModel`. The current date and time is passed as `now`.
-/

set_option autoImplicit false

namespace LocalSend

namespace KnownDevices

structure Entry where
  aliasName : QString := []
  firstSeen : Nat := 0
  paired : Bool := false
  blocked : Bool := false

end KnownDevices

structure KnownDevices where
  entries : AList fun _ : QString => KnownDevices.Entry

namespace KnownDevices

variable [Qt]

def entryOf (k : KnownDevices) (fingerprint : QString) : Entry :=
  (k.entries.lookup (Qt.toUpper fingerprint)).getD {}

def isBlocked (k : KnownDevices) (fingerprint : QString) : Bool :=
  fingerprint ≠ [] && (k.entryOf fingerprint).blocked

def setBlocked (k : KnownDevices) (now : Nat) (fingerprint aliasName : QString) (blocked : Bool) :
    KnownDevices :=
  if fingerprint = [] then k
  else
    let key := Qt.toUpper fingerprint
    match k.entries.lookup key with
    | none =>
      if ¬ blocked then k
      else ⟨k.entries.insert key { aliasName := aliasName, firstSeen := now, blocked := true }⟩
    | some e =>
      if e.blocked = blocked then k
      else ⟨k.entries.insert key { e with
        blocked := blocked
        aliasName := if aliasName = [] then e.aliasName else aliasName }⟩

def remember (k : KnownDevices) (now : Nat) (fingerprint aliasName : QString) : KnownDevices :=
  if fingerprint = [] then k
  else
    let key := Qt.toUpper fingerprint
    match k.entries.lookup key with
    | some e =>
      if e.paired ∧ e.aliasName = aliasName then k
      else ⟨k.entries.insert key { e with aliasName := aliasName, paired := true }⟩
    | none => ⟨k.entries.insert key { aliasName := aliasName, firstSeen := now, paired := true }⟩

/-- A block outlives the pairing. -/
def forget (k : KnownDevices) (now : Nat) (fingerprint : QString) : KnownDevices :=
  let key := Qt.toUpper fingerprint
  match k.entries.lookup key with
  | none => k
  | some e =>
    if e.blocked then
      ⟨k.entries.insert key { e with aliasName := [], paired := false, firstSeen := now }⟩
    else ⟨k.entries.erase key⟩

omit [Qt] in
/-- Only the blocks are kept. -/
def forgetAll (k : KnownDevices) (now : Nat) : KnownDevices :=
  let kept : AList fun _ : QString => Entry := k.entries.entries.foldr (fun e kept =>
    if e.2.blocked then kept.insert e.1 { firstSeen := now, blocked := true } else kept) ∅
  if k.entries.entries.all fun e => e.2.blocked && !e.2.paired then k else ⟨kept⟩

end KnownDevices

def MaxDevices : Nat := 64

structure DeviceModel where
  devices : List DeviceInfo

namespace DeviceModel

def indexOfFingerprint (m : DeviceModel) (fingerprint : QString) : Option Nat :=
  m.devices.findIdx? fun d => d.fingerprint = fingerprint

def remove (m : DeviceModel) (fingerprint : QString) : DeviceModel :=
  match m.indexOfFingerprint fingerprint with
  | none => m
  | some row => ⟨m.devices.eraseIdx row⟩

def clear (_ : DeviceModel) : DeviceModel := ⟨[]⟩

/-- Drops what was not seen for `maxAgeSeconds`; `now` is in milliseconds. -/
def prune (m : DeviceModel) (now maxAgeSeconds : Nat) : DeviceModel :=
  ⟨m.devices.filter fun d => (now - d.lastSeen) / 1000 ≤ maxAgeSeconds⟩

variable [Qt]

/-- The first row the device sorts before: by alias, then by fingerprint. -/
def insertionPoint (devices : List DeviceInfo) (d : DeviceInfo) : Nat :=
  (devices.findIdx? fun other =>
    match Qt.compareNoCase other.aliasName d.aliasName with
    | .gt => true
    | .eq => compare other.fingerprint d.fingerprint = .gt
    | .lt => false).getD devices.length

/-- Also whether a device has appeared. -/
def upsert (m : DeviceModel) (known : KnownDevices) (now : Nat) (device : DeviceInfo) :
    Bool × DeviceModel :=
  if ¬ device.isValid ∨ device.address = [] then (false, m)
  else if known.isBlocked device.fingerprint then (false, m.remove device.fingerprint)
  else
    let updated := { device with lastSeen := now }
    match m.indexOfFingerprint device.fingerprint with
    | some existing =>
      let previous := m.devices.getD existing {}
      if previous.aliasName ≠ updated.aliasName then
        let rest := m.devices.eraseIdx existing
        (false, ⟨rest.insertIdx (insertionPoint rest updated) updated⟩)
      else (false, ⟨m.devices.set existing updated⟩)
    | none =>
      if m.devices.length ≥ MaxDevices then (false, m)
      else (true, ⟨m.devices.insertIdx (insertionPoint m.devices updated) updated⟩)

end DeviceModel

end LocalSend
