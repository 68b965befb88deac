import LocalSend.Qt.Text

/-!
# Past transfers
-/

set_option autoImplicit false

namespace LocalSend

namespace HistoryModel

def MaxRecords : Nat := 200

structure Record where
  id : QString
  direction : QString
  peerAlias : QString
  peerDeviceType : QString
  timestamp : Nat
  fileNames : List QString
  totalBytes : Int
  status : QString
  destination : QString
  deriving DecidableEq

end HistoryModel

structure HistoryModel where
  records : List HistoryModel.Record

/-- The newest first, and no more than `MaxRecords`. -/
def HistoryModel.append (h : HistoryModel) (record : Record) : HistoryModel :=
  ⟨(record :: h.records).take MaxRecords⟩

namespace HistoryModel

/-- A row that there is not is ignored. -/
def removeAt (h : HistoryModel) (row : Int) : HistoryModel :=
  if row < 0 ∨ row ≥ h.records.length then h else ⟨h.records.eraseIdx row.toNat⟩

def clear (h : HistoryModel) : HistoryModel := if h.records = [] then h else ⟨[]⟩

/-- A call that changes the list. -/
inductive Edit
  | append (record : Record)
  | removeAt (row : Int)
  | clear
  deriving DecidableEq

namespace Edit

def apply (h : HistoryModel) : Edit → HistoryModel
  | .append record => h.append record
  | .removeAt row => h.removeAt row
  | .clear => h.clear

/-- The call gets to `save()`. -/
def saves (h : HistoryModel) : Edit → Bool
  | .append _ => true
  | .removeAt row => ¬ (row < 0 ∨ row ≥ h.records.length)
  | .clear => h.records ≠ []

theorem apply_of_not_saves {h : HistoryModel} {e : Edit} (he : e.saves h = false) :
    e.apply h = h := by
  cases e with
  | append record => cases he
  | removeAt row => exact if_pos (not_not.1 (of_decide_eq_false he))
  | clear => exact if_pos (not_not.1 (of_decide_eq_false he))

end Edit

end HistoryModel

end LocalSend
