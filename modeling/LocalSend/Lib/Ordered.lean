import Mathlib.Data.List.InsertIdx
import Mathlib.Data.List.Nodup

/-!
# Lists in increasing order, with distinct keys

A list is `Increasing` under a comparison, and an element goes before the first one that is greater
(`upperBound`). Where the rows have keys, erasing, replacing or inserting a row leaves the rows with
another key as they are, and in their order (`filter_eraseIdx`, `filter_set`, `filter_insertIdx`).
-/

set_option autoImplicit false

namespace LocalSend.Lib

variable {α κ : Type}

/-! ## Order -/

section
variable {cmp : α → α → Ordering}

/-- Each element is less than the ones after it. -/
def Increasing (cmp : α → α → Ordering) (rows : List α) : Prop :=
  rows.Pairwise fun a b => cmp a b = .lt

/-- The index of the first element that is greater. -/
def upperBound (cmp : α → α → Ordering) (rows : List α) (a : α) : Nat :=
  (rows.findIdx? fun b => cmp b a = .gt).getD rows.length

@[simp] theorem upperBound_nil (a : α) : upperBound cmp [] a = 0 := rfl

theorem upperBound_cons (b : α) (rows : List α) (a : α) :
    upperBound cmp (b :: rows) a = if cmp b a = .gt then 0 else upperBound cmp rows a + 1 := by
  unfold upperBound
  rw [List.findIdx?_cons]
  by_cases h : cmp b a = .gt
  · simp [h]
  · simp only [h, decide_false, Bool.false_eq_true, if_false, List.length_cons]
    cases List.findIdx? (fun b => decide (cmp b a = .gt)) rows <;> rfl

theorem upperBound_le (rows : List α) (a : α) : upperBound cmp rows a ≤ rows.length := by
  induction rows with
  | nil => simp
  | cons b rows ih =>
    rw [upperBound_cons]
    split
    · exact Nat.zero_le _
    · exact Nat.succ_le_succ ih

theorem Increasing.insert [Std.TransCmp cmp] {rows : List α} {a : α} (h : Increasing cmp rows)
    (hne : ∀ b ∈ rows, cmp b a ≠ .eq) :
    Increasing cmp (rows.insertIdx (upperBound cmp rows a) a) := by
  induction rows with
  | nil => simp [Increasing]
  | cons b rows ih =>
    obtain ⟨hb, hrest⟩ := List.pairwise_cons.1 h
    rw [upperBound_cons]
    split
    · rename_i hgt
      have hab : cmp a b = .lt := Std.OrientedCmp.lt_of_gt hgt
      refine List.pairwise_cons.2 ⟨fun c hc => ?_, h⟩
      rcases List.mem_cons.1 hc with rfl | hc
      · exact hab
      · exact Std.TransCmp.lt_trans hab (hb c hc)
    · rename_i hle
      have hba : cmp b a = .lt := by
        cases hcase : cmp b a with
        | lt => rfl
        | eq => exact absurd hcase (hne b List.mem_cons_self)
        | gt => exact absurd hcase hle
      rw [List.insertIdx_succ_cons]
      refine List.pairwise_cons.2 ⟨fun c hc => ?_, ih hrest fun c hc => hne c (.tail b hc)⟩
      rcases (List.mem_insertIdx (upperBound_le rows a)).1 hc with rfl | hc
      · exact hba
      · exact hb c hc

/-- An element that compares equal takes the place. -/
theorem Increasing.set [Std.TransCmp cmp] {rows : List α} {i : Nat} {a b : α}
    (h : Increasing cmp rows) (hi : rows[i]? = some b) (heq : cmp b a = .eq) :
    Increasing cmp (rows.set i a) := by
  induction rows generalizing i with
  | nil => simp at hi
  | cons c rows ih =>
    obtain ⟨hc, hrest⟩ := List.pairwise_cons.1 h
    cases i with
    | zero =>
      obtain rfl := Option.some.inj hi
      refine List.pairwise_cons.2 ⟨fun d hd => ?_, hrest⟩
      exact Std.TransCmp.lt_of_eq_of_lt (Std.OrientedCmp.eq_symm heq) (hc d hd)
    | succ i =>
      rw [List.getElem?_cons_succ] at hi
      refine List.pairwise_cons.2 ⟨fun d hd => ?_, ih hrest hi⟩
      rcases List.mem_or_eq_of_mem_set hd with hd | rfl
      · exact hc d hd
      · exact Std.TransCmp.lt_of_lt_of_eq (hc b (List.mem_of_getElem? hi)) heq

end

/-! ## Keys -/

section
variable {p : α → Bool} {rows : List α} {i : Nat} {a b : α}

theorem filter_insertIdx (ha : p a = false) : (rows.insertIdx i a).filter p = rows.filter p := by
  induction rows generalizing i with
  | nil => cases i <;> simp [ha]
  | cons c rows ih =>
    cases i with
    | zero => simp [ha]
    | succ i => simp [List.filter_cons, ih]

theorem filter_eraseIdx (hi : rows[i]? = some b) (hb : p b = false) :
    (rows.eraseIdx i).filter p = rows.filter p := by
  induction rows generalizing i with
  | nil => simp
  | cons c rows ih =>
    cases i with
    | zero =>
      obtain rfl := Option.some.inj hi
      simp [hb]
    | succ i => simp [List.filter_cons, ih hi]

theorem filter_set (hi : rows[i]? = some b) (hb : p b = false) (ha : p a = false) :
    (rows.set i a).filter p = rows.filter p := by
  induction rows generalizing i with
  | nil => simp
  | cons c rows ih =>
    cases i with
    | zero =>
      obtain rfl := Option.some.inj hi
      simp [hb, ha]
    | succ i => simp [List.filter_cons, ih hi]

variable {key : α → κ}

theorem nodup_insertIdx (h : (rows.map key).Nodup) (ha : key a ∉ rows.map key) :
    ((rows.insertIdx i a).map key).Nodup := by
  induction rows generalizing i with
  | nil => cases i <;> simp
  | cons c rows ih =>
    cases i with
    | zero => exact List.nodup_cons.2 ⟨ha, h⟩
    | succ i =>
      rw [List.map_cons, List.nodup_cons] at h
      rw [List.map_cons, List.mem_cons, not_or] at ha
      rw [List.insertIdx_succ_cons, List.map_cons, List.nodup_cons]
      refine ⟨fun hc => ?_, ih h.2 ha.2⟩
      obtain ⟨d, hd, hkey⟩ := List.mem_map.1 hc
      rcases List.eq_or_mem_of_mem_insertIdx hd with rfl | hd
      · exact ha.1 hkey
      · exact h.1 (hkey ▸ List.mem_map_of_mem hd)

/-- A row of that key takes the place. -/
theorem map_set (key : α → κ) (hi : rows[i]? = some b) (hkey : key a = key b) :
    (rows.set i a).map key = rows.map key := by
  obtain ⟨hlt, rfl⟩ := List.getElem?_eq_some_iff.1 hi
  refine List.ext_getElem? fun j => ?_
  by_cases hj : j = i
  · subst hj
    simp [hlt, hkey]
  · simp [Ne.symm hj]

theorem not_mem_eraseIdx (h : (rows.map key).Nodup) (hi : rows[i]? = some b) :
    key b ∉ (rows.eraseIdx i).map key := by
  induction rows generalizing i with
  | nil => simp
  | cons c rows ih =>
    rw [List.map_cons, List.nodup_cons] at h
    cases i with
    | zero =>
      obtain rfl := Option.some.inj hi
      exact h.1
    | succ i =>
      rw [List.eraseIdx_cons_succ, List.map_cons, List.mem_cons, not_or]
      refine ⟨fun heq => h.1 (heq ▸ List.mem_map_of_mem (List.mem_of_getElem? hi)), ih h.2 hi⟩

theorem filter_eq_singleton [DecidableEq κ] (h : (rows.map key).Nodup) (ha : a ∈ rows) :
    rows.filter (fun b => key b = key a) = [a] := by
  induction rows with
  | nil => exact absurd ha List.not_mem_nil
  | cons c rows ih =>
    rw [List.map_cons, List.nodup_cons] at h
    rcases List.mem_cons.1 ha with rfl | ha
    · have hnone : rows.filter (fun b => key b = key a) = [] := by
        refine List.filter_eq_nil_iff.2 fun b hb => ?_
        have hne : key b ≠ key a := fun heq => h.1 (heq ▸ List.mem_map_of_mem hb)
        simp [hne]
      simp [hnone]
    · have hne : key c ≠ key a := fun heq => h.1 (heq ▸ List.mem_map_of_mem ha)
      simp [hne, ih h.2 ha]

end

end LocalSend.Lib
