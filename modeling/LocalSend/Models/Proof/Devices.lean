import LocalSend.Lib.Ordered
import LocalSend.Lib.Run
import LocalSend.Models.Devices
import LocalSend.Qt.Ascii
import Mathlib.Data.List.Perm.Basic

/-!
# The device list over any calls

However it is called, the list is sorted, has one row for a fingerprint and at most `MaxDevices`
rows (`Inv`). A row is refreshed in place, or taken out and put back where its new alias belongs
(`upsert_listable`). `Lists` says when `upsert` leaves a row with the data it is given (`mem_upsert`,
`Lists.mem`), and `Appears` when that is a row more.
-/

set_option autoImplicit false

namespace LocalSend

namespace DeviceModel

/-- The calls that change the list. -/
inductive Call
  | upsert (known : KnownDevices) (now : Nat) (device : DeviceInfo)
  | remove (fingerprint : QString)
  | clear
  | prune (now maxAgeSeconds : Nat)

variable [Qt] {m : DeviceModel} {known : KnownDevices} {now : Nat} {device : DeviceInfo}

def next (m : DeviceModel) : Call → DeviceModel
  | .upsert known now device => (m.upsert known now device).2
  | .remove fingerprint => m.remove fingerprint
  | .clear => m.clear
  | .prune now maxAgeSeconds => m.prune now maxAgeSeconds

/-- Nothing is listed yet. -/
def system : Lib.System DeviceModel Call := ⟨(· = ⟨[]⟩), next⟩

/-- By alias in whatever case, then by fingerprint. -/
def order (a b : DeviceInfo) : Ordering :=
  (Qt.compareNoCase a.aliasName b.aliasName).then (compare a.fingerprint b.fingerprint)

omit [Qt] in
/-- The fingerprints of the rows. -/
def fingerprints (m : DeviceModel) : List QString := m.devices.map (·.fingerprint)

structure Inv (m : DeviceModel) : Prop where
  valid : ∀ d ∈ m.devices, d.isValid = true
  increasing : Lib.Increasing order m.devices
  distinct : m.fingerprints.Nodup
  bounded : m.devices.length ≤ MaxDevices

/-! ## The order -/

instance [Std.TransCmp Qt.compareNoCase] : Std.TransCmp order :=
  have : Std.TransCmp fun a b : DeviceInfo => Qt.compareNoCase a.aliasName b.aliasName :=
    { eq_swap := Std.OrientedCmp.eq_swap, isLE_trans := Std.TransCmp.isLE_trans }
  have : Std.TransCmp fun a b : DeviceInfo => compare a.fingerprint b.fingerprint :=
    { eq_swap := Std.OrientedCmp.eq_swap, isLE_trans := Std.TransCmp.isLE_trans }
  inferInstanceAs (Std.TransCmp (compareLex
    (fun a b : DeviceInfo => Qt.compareNoCase a.aliasName b.aliasName)
    fun a b : DeviceInfo => compare a.fingerprint b.fingerprint))

/-- Two rows that neither precedes have the same fingerprint. -/
theorem order_eq {a b : DeviceInfo} (h : order a b = .eq) : a.fingerprint = b.fingerprint :=
  Std.LawfulEqOrd.eq_of_compare (Ordering.then_eq_eq.1 h).2

theorem insertionPoint_eq (rows : List DeviceInfo) (d : DeviceInfo) :
    insertionPoint rows d = Lib.upperBound order rows d := by
  unfold insertionPoint Lib.upperBound
  congr 2
  funext other
  unfold order
  cases Qt.compareNoCase other.aliasName d.aliasName <;> simp [Ordering.then]

/-! ## Rows by their fingerprint -/

omit [Qt] in
theorem indexOfFingerprint_some {fingerprint : QString} {row : Nat}
    (h : m.indexOfFingerprint fingerprint = some row) :
    ∃ d, m.devices[row]? = some d ∧ d.fingerprint = fingerprint := by
  obtain ⟨hlt, hd, -⟩ := List.findIdx?_eq_some_iff_getElem.1 h
  exact ⟨m.devices[row], List.getElem?_eq_getElem hlt, of_decide_eq_true hd⟩

omit [Qt] in
theorem indexOfFingerprint_none {fingerprint : QString} :
    m.indexOfFingerprint fingerprint = none ↔ fingerprint ∉ m.fingerprints := by
  simp [indexOfFingerprint, fingerprints, List.findIdx?_eq_none_iff]

/-- The device may be listed. -/
def Listable (known : KnownDevices) (device : DeviceInfo) : Prop :=
  device.isValid = true ∧ device.address ≠ [] ∧ known.isBlocked device.fingerprint = false

instance : Decidable (Listable known device) := inferInstanceAs (Decidable (_ ∧ _ ∧ _))

/-- What `upsert` does to a device that may not be listed. -/
theorem upsert_refused (m : DeviceModel) (now : Nat) (h : ¬ Listable known device) :
    m.upsert known now device = (false, m) ∨
      m.upsert known now device = (false, m.remove device.fingerprint) := by
  unfold upsert
  split
  · exact .inl rfl
  · rename_i hok
    obtain ⟨hvalid, haddress⟩ := not_or.1 hok
    split
    · exact .inr rfl
    · rename_i hfree
      exact absurd ⟨not_not.1 hvalid, haddress, Bool.eq_false_iff.2 hfree⟩ h

/-- What `upsert` does to one that may: its row is moved, or replaced; it gets one; or the list is
full. -/
theorem upsert_listable (m : DeviceModel) (now : Nat) (h : Listable known device) :
    let updated := { device with lastSeen := now }
    (∃ row d, m.devices[row]? = some d ∧ d.fingerprint = device.fingerprint ∧
      ((d.aliasName ≠ device.aliasName ∧
          m.upsert known now device = (false, ⟨(m.devices.eraseIdx row).insertIdx
            (insertionPoint (m.devices.eraseIdx row) updated) updated⟩)) ∨
        (d.aliasName = device.aliasName ∧
          m.upsert known now device = (false, ⟨m.devices.set row updated⟩)))) ∨
    (device.fingerprint ∉ m.fingerprints ∧
      ((m.devices.length < MaxDevices ∧ m.upsert known now device =
          (true, ⟨m.devices.insertIdx (insertionPoint m.devices updated) updated⟩)) ∨
        (MaxDevices ≤ m.devices.length ∧ m.upsert known now device = (false, m)))) := by
  intro updated
  obtain ⟨hvalid, haddress, hfree⟩ := h
  unfold upsert
  rw [if_neg (not_or.2 ⟨not_not.2 hvalid, haddress⟩), if_neg (Bool.eq_false_iff.1 hfree)]
  cases hrow : m.indexOfFingerprint device.fingerprint with
  | some row =>
    obtain ⟨d, hd, hf⟩ := indexOfFingerprint_some hrow
    refine .inl ⟨row, d, hd, hf, ?_⟩
    have hget : m.devices.getD row {} = d := by simp [hd]
    simp only [hget]
    by_cases halias : d.aliasName = device.aliasName
    · exact .inr ⟨halias, if_neg (not_not.2 halias)⟩
    · exact .inl ⟨halias, if_pos halias⟩
  | none =>
    refine .inr ⟨indexOfFingerprint_none.1 hrow, ?_⟩
    by_cases hfull : MaxDevices ≤ m.devices.length
    · exact .inr ⟨hfull, if_pos hfull⟩
    · exact .inl ⟨Nat.lt_of_not_le hfull, if_neg hfull⟩

/-! ## Whose rows there are -/

/-- A row is written for the device. -/
def Lists (m : DeviceModel) (known : KnownDevices) (device : DeviceInfo) : Prop :=
  Listable known device ∧
    (device.fingerprint ∈ m.fingerprints ∨ m.devices.length < MaxDevices)

/-- The device is new to the list, and there is room for it. -/
def Appears (m : DeviceModel) (known : KnownDevices) (device : DeviceInfo) : Prop :=
  Listable known device ∧ device.fingerprint ∉ m.fingerprints ∧ m.devices.length < MaxDevices

instance : Decidable (m.Lists known device) := inferInstanceAs (Decidable (_ ∧ (_ ∨ _)))

instance : Decidable (m.Appears known device) := inferInstanceAs (Decidable (_ ∧ _ ∧ _))

omit [Qt] in
theorem remove_sublist (m : DeviceModel) (fingerprint : QString) :
    (m.remove fingerprint).devices.Sublist m.devices := by
  unfold remove
  split
  · exact List.Sublist.refl _
  · exact List.eraseIdx_sublist _ _

theorem insertionPoint_le (rows : List DeviceInfo) (d : DeviceInfo) :
    insertionPoint rows d ≤ rows.length := by
  rw [insertionPoint_eq]
  exact Lib.upperBound_le rows d

omit [Qt] in
theorem fingerprint_mem {row : Nat} {d : DeviceInfo} (h : m.devices[row]? = some d) :
    d.fingerprint ∈ m.fingerprints := List.mem_map_of_mem (List.mem_of_getElem? h)

omit [Qt] in
theorem fingerprints_set {row : Nat} {d updated : DeviceInfo} (h : m.devices[row]? = some d)
    (hf : d.fingerprint = updated.fingerprint) :
    fingerprints ⟨m.devices.set row updated⟩ = m.fingerprints :=
  Lib.map_set DeviceInfo.fingerprint h hf.symm

theorem mem_upsert {d : DeviceInfo} (h : d ∈ (m.upsert known now device).2.devices) :
    d ∈ m.devices ∨ m.Lists known device ∧ d = { device with lastSeen := now } := by
  by_cases hlist : Listable known device
  · rcases upsert_listable m now hlist with
      ⟨row, old, hold, hf, ⟨-, heq⟩ | ⟨-, heq⟩⟩ | ⟨-, ⟨hroom, heq⟩ | ⟨-, heq⟩⟩
    · rw [heq] at h
      rcases List.eq_or_mem_of_mem_insertIdx h with hd | hd
      · exact .inr ⟨⟨hlist, .inl (hf ▸ fingerprint_mem hold)⟩, hd⟩
      · exact .inl (List.mem_of_mem_eraseIdx hd)
    · rw [heq] at h
      rcases List.mem_or_eq_of_mem_set h with hd | hd
      · exact .inl hd
      · exact .inr ⟨⟨hlist, .inl (hf ▸ fingerprint_mem hold)⟩, hd⟩
    · rw [heq] at h
      rcases List.eq_or_mem_of_mem_insertIdx h with hd | hd
      · exact .inr ⟨⟨hlist, .inr hroom⟩, hd⟩
      · exact .inl hd
    · rw [heq] at h
      exact .inl h
  · rcases upsert_refused m now hlist with heq | heq
    · rw [heq] at h
      exact .inl h
    · rw [heq] at h
      exact .inl ((remove_sublist m _).subset h)

/-- A row of somebody else stays. -/
theorem kept_upsert {d : DeviceInfo} (h : d ∈ m.devices) (hne : d.fingerprint ≠ device.fingerprint) :
    d ∈ (m.upsert known now device).2.devices := by
  have hother : ∀ (row : Nat) (old : DeviceInfo), m.devices[row]? = some old →
      old.fingerprint = device.fingerprint → d ∈ m.devices.eraseIdx row := by
    intro row old hold hf
    obtain ⟨i, hi⟩ := List.mem_iff_getElem?.1 h
    refine List.mem_eraseIdx_iff_getElem?.2 ⟨i, fun heq => hne ?_, hi⟩
    subst heq
    rw [← hf, Option.some.inj (hold.symm.trans hi)]
  by_cases hlist : Listable known device
  · rcases upsert_listable m now hlist with
      ⟨row, old, hold, hf, ⟨-, heq⟩ | ⟨-, heq⟩⟩ | ⟨-, ⟨-, heq⟩ | ⟨-, heq⟩⟩
    · rw [heq]
      exact (List.mem_insertIdx (insertionPoint_le _ _)).2 (.inr (hother row old hold hf))
    · obtain ⟨i, hi⟩ := List.mem_iff_getElem?.1 h
      rw [heq]
      refine List.mem_iff_getElem?.2 ⟨i, ?_⟩
      rw [List.getElem?_set_ne, hi]
      rintro rfl
      rw [Option.some.inj (hold.symm.trans hi)] at hf
      exact hne hf
    · rw [heq]
      exact (List.mem_insertIdx (insertionPoint_le _ _)).2 (.inr h)
    · rw [heq]
      exact h
  · rcases upsert_refused m now hlist with heq | heq
    · rw [heq]
      exact h
    · rw [heq]
      unfold remove
      split
      · exact h
      · rename_i row hrow
        obtain ⟨old, hold, hf⟩ := indexOfFingerprint_some hrow
        exact hother row old hold hf

theorem Lists.mem (h : m.Lists known device) (now : Nat) :
    { device with lastSeen := now } ∈ (m.upsert known now device).2.devices := by
  rcases upsert_listable m now h.1 with
    ⟨row, old, hold, -, ⟨-, heq⟩ | ⟨-, heq⟩⟩ | ⟨hfresh, ⟨-, heq⟩ | ⟨hfull, -⟩⟩
  · rw [heq]
    exact (List.mem_insertIdx (insertionPoint_le _ _)).2 (.inl rfl)
  · rw [heq]
    exact List.mem_set (List.getElem?_eq_some_iff.1 hold).1 _
  · rw [heq]
    exact (List.mem_insertIdx (insertionPoint_le _ _)).2 (.inl rfl)
  · rcases h.2 with hlisted | hroom
    · exact absurd hlisted hfresh
    · omega

theorem Appears.perm (h : m.Appears known device) (now : Nat) :
    (m.upsert known now device).2.fingerprints.Perm (device.fingerprint :: m.fingerprints) := by
  obtain ⟨hlist, hfresh, hroom⟩ := h
  rcases upsert_listable m now hlist with ⟨row, old, hold, hf, -⟩ | ⟨-, ⟨-, heq⟩ | ⟨hfull, -⟩⟩
  · exact absurd (hf ▸ fingerprint_mem hold) hfresh
  · rw [heq]
    exact (List.perm_insertIdx _ _ (insertionPoint_le _ _)).map _
  · omega

/-- Otherwise no fingerprint is new. -/
theorem subperm_upsert (h : ¬ m.Appears known device) (now : Nat) :
    (m.upsert known now device).2.fingerprints.Subperm m.fingerprints := by
  by_cases hlist : Listable known device
  · rcases upsert_listable m now hlist with
      ⟨row, old, hold, hf, ⟨-, heq⟩ | ⟨-, heq⟩⟩ | ⟨hfresh, ⟨hroom, -⟩ | ⟨-, heq⟩⟩
    · obtain ⟨hlt, rfl⟩ := List.getElem?_eq_some_iff.1 hold
      have hback := (List.getElem_cons_eraseIdx_perm hlt).map (·.fingerprint)
      have hplaced := (List.perm_insertIdx { device with lastSeen := now }
        (m.devices.eraseIdx row) (insertionPoint_le _ { device with lastSeen := now })).map
        (·.fingerprint)
      rw [heq]
      rw [List.map_cons, hf] at hback
      exact (hplaced.trans hback).subperm
    · have hsame : fingerprints ⟨m.devices.set row { device with lastSeen := now }⟩ =
          m.fingerprints := fingerprints_set hold hf
      rw [heq]
      exact (List.Perm.of_eq hsame).subperm
    · exact absurd ⟨hlist, hfresh, hroom⟩ h
    · rw [heq]
  · rcases upsert_refused m now hlist with heq | heq
    · rw [heq]
    · rw [heq]
      exact ((remove_sublist m _).map _).subperm

/-- However the list is called, no fingerprint has two rows. -/
theorem nodup_upsert (h : m.fingerprints.Nodup) :
    (m.upsert known now device).2.fingerprints.Nodup := by
  by_cases happears : m.Appears known device
  · exact (happears.perm now).nodup_iff.2 (List.nodup_cons.2 ⟨happears.2.1, h⟩)
  · obtain ⟨l, hperm, hsub⟩ := subperm_upsert happears now
    exact hperm.nodup_iff.1 (h.sublist hsub)

theorem nodup_next (h : m.fingerprints.Nodup) (c : Call) : (m.next c).fingerprints.Nodup := by
  cases c with
  | upsert known now device => exact nodup_upsert h
  | remove fingerprint => exact h.sublist ((remove_sublist m fingerprint).map _)
  | clear => exact List.nodup_nil
  | prune now maxAgeSeconds => exact h.sublist (List.filter_sublist.map _)

/-- A row is an old one, or the one that was put forward. -/
theorem mem_next {c : Call} {d : DeviceInfo} (h : d ∈ (m.next c).devices) : d ∈ m.devices ∨
    ∃ known now device, c = .upsert known now device ∧ d = { device with lastSeen := now } := by
  cases c with
  | upsert known now device =>
    rcases mem_upsert h with hd | ⟨-, hd⟩
    · exact .inl hd
    · exact .inr ⟨known, now, device, rfl, hd⟩
  | remove fingerprint => exact .inl ((remove_sublist m fingerprint).subset h)
  | clear => cases h
  | prune now maxAgeSeconds => exact .inl (List.mem_of_mem_filter h)

/-! ## The invariant -/

theorem Inv.of_sublist {m' : DeviceModel} (h : m.Inv) (hs : m'.devices.Sublist m.devices) :
    m'.Inv where
  valid d hd := h.valid d (hs.subset hd)
  increasing := List.Pairwise.sublist hs h.increasing
  distinct := h.distinct.sublist (hs.map _)
  bounded := hs.length_le.trans h.bounded

section
variable [Std.TransCmp Qt.compareNoCase]

/-- There is room for a row, and it goes where it belongs. -/
theorem Inv.place {d : DeviceInfo} (h : m.Inv) (hroom : m.devices.length < MaxDevices)
    (hvalid : d.isValid = true) (hfresh : d.fingerprint ∉ m.fingerprints) :
    Inv ⟨m.devices.insertIdx (insertionPoint m.devices d) d⟩ := by
  rw [insertionPoint_eq]
  refine ⟨fun b hb => ?_, h.increasing.insert fun b hb heq => ?_,
    Lib.nodup_insertIdx h.distinct hfresh, ?_⟩
  · rcases List.eq_or_mem_of_mem_insertIdx hb with rfl | hb
    · exact hvalid
    · exact h.valid b hb
  · exact hfresh (order_eq heq ▸ List.mem_map_of_mem hb)
  · exact List.length_insertIdx_le_succ.trans hroom

theorem Inv.upsert (h : m.Inv) (known : KnownDevices) (now : Nat) (device : DeviceInfo) :
    (m.upsert known now device).2.Inv := by
  by_cases hlist : Listable known device
  · rcases upsert_listable m now hlist with
      ⟨row, d, hd, hf, ⟨-, heq⟩ | ⟨halias, heq⟩⟩ | ⟨hfresh, ⟨hroom, heq⟩ | ⟨-, heq⟩⟩
    · -- the row is taken out, and its fingerprint is nobody's
      have hrest : Inv ⟨m.devices.eraseIdx row⟩ := h.of_sublist (List.eraseIdx_sublist _ _)
      have hlt : row < m.devices.length := (List.getElem?_eq_some_iff.1 hd).1
      have hlen := List.length_eraseIdx_of_lt hlt
      have hbound := h.bounded
      rw [heq]
      refine hrest.place (d := { device with lastSeen := now }) ?_ hlist.1 ?_
      · change (m.devices.eraseIdx row).length < MaxDevices
        omega
      · change device.fingerprint ∉ _
        rw [← hf]
        exact Lib.not_mem_eraseIdx h.distinct hd
    · rw [heq]
      refine ⟨fun b hb => ?_, h.increasing.set hd ?_, ?_, ?_⟩
      · rcases List.mem_or_eq_of_mem_set hb with hb | rfl
        · exact h.valid b hb
        · exact hlist.1
      · simp [order, halias, hf, Std.ReflCmp.compare_self]
      · have hsame : fingerprints ⟨m.devices.set row { device with lastSeen := now }⟩ =
            m.fingerprints := fingerprints_set hd hf
        exact hsame.symm ▸ h.distinct
      · exact (List.length_set ..).trans_le h.bounded
    · rw [heq]
      exact h.place (d := { device with lastSeen := now }) hroom hlist.1 hfresh
    · rw [heq]
      exact h
  · rcases upsert_refused m now hlist with heq | heq
    · rw [heq]
      exact h
    · rw [heq]
      exact h.of_sublist (remove_sublist m _)

theorem Inv.next (h : m.Inv) (c : Call) : (m.next c).Inv := by
  cases c with
  | upsert known now device => exact h.upsert known now device
  | remove fingerprint => exact h.of_sublist (remove_sublist m fingerprint)
  | clear => exact h.of_sublist (List.nil_sublist _)
  | prune now maxAgeSeconds => exact h.of_sublist List.filter_sublist

theorem Inv.reached (h : Lib.Reached system m) : m.Inv := by
  refine h.invariant (fun m hm => ?_) fun m c hm _ => hm.next c
  obtain rfl : m = ⟨[]⟩ := hm
  exact ⟨nofun, .nil, List.nodup_nil, Nat.zero_le _⟩

end

/-! ## One call -/

/-- One row is the device's, with its new data; the other rows are as they were. -/
structure Refreshed (m m' : DeviceModel) (d : DeviceInfo) : Prop where
  row : m'.devices.filter (·.fingerprint = d.fingerprint) = [d]
  others : m'.devices.filter (·.fingerprint ≠ d.fingerprint) =
    m.devices.filter (·.fingerprint ≠ d.fingerprint)

theorem upsert_refreshed {m' : DeviceModel} (h : m'.fingerprints.Nodup)
    (hm' : (m.upsert known now device).2 = m') (hlist : Listable known device)
    (hlisted : device.fingerprint ∈ m.fingerprints) :
    Refreshed m m' { device with lastSeen := now } := by
  rcases upsert_listable m now hlist with
    ⟨row, d, hd, hf, ⟨-, heq⟩ | ⟨-, heq⟩⟩ | ⟨hfresh, -⟩
  · obtain rfl : _ = m' := (congrArg Prod.snd heq).symm.trans hm'
    refine ⟨Lib.filter_eq_singleton h ?_, ?_⟩
    · exact (List.mem_insertIdx (insertionPoint_le _ _)).2 (.inl rfl)
    · exact (Lib.filter_insertIdx (by simp)).trans (Lib.filter_eraseIdx hd (by simp [hf]))
  · obtain rfl : _ = m' := (congrArg Prod.snd heq).symm.trans hm'
    refine ⟨Lib.filter_eq_singleton h ?_, Lib.filter_set hd (by simp [hf]) (by simp)⟩
    exact List.mem_set (List.getElem?_eq_some_iff.1 hd).1 _
  · exact absurd hlisted hfresh

/-- A device has appeared if and only if there is a row more. -/
theorem upsert_grows (m : DeviceModel) (known : KnownDevices) (now : Nat) (device : DeviceInfo) :
    (m.upsert known now device).1 = true ↔
      m.devices.length < (m.upsert known now device).2.devices.length := by
  by_cases hlist : Listable known device
  · rcases upsert_listable m now hlist with
      ⟨row, d, hd, -, ⟨-, heq⟩ | ⟨-, heq⟩⟩ | ⟨-, ⟨-, heq⟩ | ⟨-, heq⟩⟩
    · have hlt : row < m.devices.length := (List.getElem?_eq_some_iff.1 hd).1
      have hlen := List.length_eraseIdx_of_lt hlt
      have hle := List.length_insertIdx_le_succ (l := m.devices.eraseIdx row)
        (x := { device with lastSeen := now })
        (i := insertionPoint (m.devices.eraseIdx row) { device with lastSeen := now })
      rw [heq]
      simp only [Bool.false_eq_true, false_iff, Nat.not_lt]
      omega
    · simp [heq]
    · have hle := insertionPoint_le m.devices { device with lastSeen := now }
      have hlen := List.length_insertIdx_of_le_length hle { device with lastSeen := now }
      rw [heq]
      simp [hlen]
    · simp [heq]
  · rcases upsert_refused m now hlist with heq | heq
    · simp [heq]
    · have hle := (remove_sublist m device.fingerprint).length_le
      rw [heq]
      simpa using hle

theorem Inv.isValid (h : m.Inv) (hlisted : device.fingerprint ∈ m.fingerprints) :
    device.isValid = true := by
  obtain ⟨d, hd, hf⟩ := List.mem_map.1 hlisted
  have hvalid := h.valid d hd
  unfold DeviceInfo.isValid at hvalid ⊢
  rwa [← hf]

/-- The list after any calls, and what the next `upsert` does to it. -/
theorem devices_kept [Std.TransCmp Qt.compareNoCase] (h : Lib.Reached system m) :
    Lib.Increasing order m.devices ∧ m.fingerprints.Nodup ∧ m.devices.length ≤ MaxDevices ∧
      ∀ known now (device : DeviceInfo),
        (device.address ≠ [] → known.isBlocked device.fingerprint = false →
          device.fingerprint ∈ m.fingerprints →
          Refreshed m (m.upsert known now device).2 { device with lastSeen := now }) ∧
        ((m.upsert known now device).1 = true ↔
          m.devices.length < (m.upsert known now device).2.devices.length) := by
  have hinv := Inv.reached h
  refine ⟨hinv.increasing, hinv.distinct, hinv.bounded, fun known now device => ⟨?_, ?_⟩⟩
  · intro haddress hfree hlisted
    have hlist : Listable known device := ⟨hinv.isValid hlisted, haddress, hfree⟩
    exact upsert_refreshed (hinv.upsert known now device).distinct rfl hlist hlisted
  · exact upsert_grows m known now device

end DeviceModel

namespace DeviceModel

section

local instance rowsQt : Qt := Ascii.qt [] []

def row (fingerprint aliasName : String) : DeviceInfo where
  fingerprint := str fingerprint
  aliasName := str aliasName
  address := str "192.168.1.9"

/-- Three devices, two of them with one name in different letter case. -/
def threeRows : List Call := [
  .upsert ⟨∅⟩ 0 (row "CC" "tv"),
  .upsert ⟨∅⟩ 1 (row "AA" "TV"),
  .upsert ⟨∅⟩ 2 (row "BB" "Desk")]

/-- The first of them is renamed, and goes to the front. -/
theorem renamed_moves :
    let m := threeRows.foldl next ⟨[]⟩
    let m' := (m.upsert ⟨∅⟩ 3 (row "CC" "Attic")).2
    m.fingerprints = [str "BB", str "AA", str "CC"] ∧
      m'.fingerprints = [str "CC", str "BB", str "AA"] ∧
      Refreshed m m' { row "CC" "Attic" with lastSeen := 3 } := by
  intro m m'
  have hreached : Lib.Reached system m :=
    Lib.ReachedBy.run_any threeRows (.start (show system.start ⟨[]⟩ from rfl))
  have : Std.TransCmp Qt.compareNoCase := inferInstanceAs (Std.TransCmp Ascii.compareFolded)
  have hkept := devices_kept hreached
  refine ⟨by decide +kernel, by decide +kernel, ?_⟩
  exact (hkept.2.2.2 ⟨∅⟩ 3 (row "CC" "Attic")).1 (by decide) (by decide) (by decide +kernel)

end

end DeviceModel

end LocalSend
