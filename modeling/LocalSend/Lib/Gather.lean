import Mathlib.Data.List.AList

/-!
# Gathering pairs into a table

`gather` enters pairs into a table one after the other and gives up at the first one that
contradicts an earlier one. It gets through if and only if no two pairs with one key differ
(`gather_iff`), and then the table holds just the pairs (`lookup_gather`), so their order does not
matter (`gather_perm`, `lookup_gather_perm`).
-/

set_option autoImplicit false

namespace LocalSend.Lib

variable {κ β : Type} [DecidableEq κ] [DecidableEq β]

/-- The table, and whether every pair went in. -/
def gather : List (κ × β) → AList (fun _ : κ => β) → AList (fun _ : κ => β) × Bool
  | [], t => (t, true)
  | (k, v) :: pairs, t =>
    match t.lookup k with
    | some u => if u ≠ v then (t, false) else gather pairs (t.insert k v)
    | none => gather pairs (t.insert k v)

omit [DecidableEq κ] [DecidableEq β] in
/-- Pairs with one key are the same. -/
def Consistent (pairs : List (κ × β)) : Prop :=
  ∀ k v w, (k, v) ∈ pairs → (k, w) ∈ pairs → v = w

/-- No pair contradicts the table. -/
def Fits (pairs : List (κ × β)) (t : AList fun _ : κ => β) : Prop :=
  ∀ k v w, (k, v) ∈ pairs → t.lookup k = some w → w = v

variable {pairs pairs' : List (κ × β)} {t : AList fun _ : κ => β}

omit [DecidableEq β] in
theorem lookup_insert_of {k k' : κ} {v w : β} (h : (t.insert k v).lookup k' = some w) :
    (k' = k ∧ w = v) ∨ (k' ≠ k ∧ t.lookup k' = some w) := by
  by_cases hk : k' = k
  · subst hk
    rw [AList.lookup_insert] at h
    exact .inl ⟨rfl, (Option.some.inj h).symm⟩
  · rw [AList.lookup_insert_ne hk] at h
    exact .inr ⟨hk, h⟩

omit [DecidableEq β] in
theorem fits_cons {k : κ} {v : β} (hlookup : ∀ u, t.lookup k = some u → u = v) :
    (Consistent ((k, v) :: pairs) ∧ Fits ((k, v) :: pairs) t) ↔
      (Consistent pairs ∧ Fits pairs (t.insert k v)) := by
  constructor
  · intro ⟨hc, hf⟩
    refine ⟨fun k' u w hu hw => hc k' u w (.tail _ hu) (.tail _ hw), fun k' u w hu hw => ?_⟩
    rcases lookup_insert_of hw with ⟨rfl, rfl⟩ | ⟨-, hold⟩
    · exact hc k' w u (.head _) (.tail _ hu)
    · exact hf k' u w (.tail _ hu) hold
  · intro ⟨hc, hf⟩
    have hhead : ∀ w, (k, w) ∈ pairs → v = w := fun w hw =>
      hf k w v hw (AList.lookup_insert t)
    refine ⟨fun k' u w hu hw => ?_, fun k' u w hu hw => ?_⟩
    · rcases List.mem_cons.1 hu with heq | hrest <;> rcases List.mem_cons.1 hw with heq' | hrest'
      · cases heq
        cases heq'
        rfl
      · cases heq
        exact hhead w hrest'
      · cases heq'
        exact (hhead u hrest).symm
      · exact hc k' u w hrest hrest'
    · rcases List.mem_cons.1 hu with heq | hrest
      · cases heq
        exact hlookup w hw
      · by_cases hk : k' = k
        · subst hk
          exact (hlookup w hw).trans (hhead u hrest)
        · exact hf k' u w hrest (by rw [AList.lookup_insert_ne hk]; exact hw)

theorem gather_iff : (gather pairs t).2 = true ↔ Consistent pairs ∧ Fits pairs t := by
  induction pairs generalizing t with
  | nil => simp [gather, Consistent, Fits]
  | cons p pairs ih =>
    obtain ⟨k, v⟩ := p
    rw [gather]
    split
    · rename_i u hu
      split
      · rename_i hne
        exact iff_of_false (by simp) fun h => hne (h.2 k v u (.head _) hu)
      · rename_i heq
        have heq : u = v := by simpa using heq
        rw [ih, fits_cons fun w hw => ?_]
        rw [hu] at hw
        rw [← Option.some.inj hw, heq]
    · rename_i hnone
      rw [ih, fits_cons fun w hw => ?_]
      rw [hnone] at hw
      exact absurd hw (by simp)

theorem lookup_gather (h : (gather pairs t).2 = true) (k : κ) (v : β) :
    (gather pairs t).1.lookup k = some v ↔ t.lookup k = some v ∨ (k, v) ∈ pairs := by
  induction pairs generalizing t with
  | nil => simp [gather]
  | cons p pairs ih =>
    obtain ⟨l, u⟩ := p
    have hfits := (gather_iff.1 h).2
    have hstep : gather ((l, u) :: pairs) t = gather pairs (t.insert l u) := by
      rw [gather]
      split
      · rename_i w hw
        rw [if_neg]
        simpa using hfits l u w (.head _) hw
      · rfl
    rw [hstep] at h ⊢
    rw [ih h, List.mem_cons]
    by_cases hk : k = l
    · subst hk
      rw [AList.lookup_insert]
      constructor
      · intro hor
        rcases hor with heq | hmem
        · cases heq
          exact .inr (.inl rfl)
        · exact .inr (.inr hmem)
      · intro hor
        rcases hor with hold | heq | hmem
        · rw [hfits k u v (.head _) hold]
          exact .inl rfl
        · cases heq
          exact .inl rfl
        · exact .inr hmem
    · rw [AList.lookup_insert_ne hk]
      simp [hk]

theorem gather_perm (h : pairs.Perm pairs') : (gather pairs t).2 = (gather pairs' t).2 := by
  rw [Bool.eq_iff_iff, gather_iff, gather_iff]
  simp only [Consistent, Fits, h.mem_iff]

theorem lookup_gather_perm (h : pairs.Perm pairs') (hok : (gather pairs t).2 = true) (k : κ) :
    (gather pairs t).1.lookup k = (gather pairs' t).1.lookup k := by
  have hok' := (gather_perm h).symm.trans hok
  refine Option.ext fun v => ?_
  rw [lookup_gather hok, lookup_gather hok', h.mem_iff]

/-- Into an empty table go just the pairs. -/
theorem gather_empty_iff : (gather pairs ∅).2 = true ↔ Consistent pairs := by
  rw [gather_iff]
  refine and_iff_left fun k v w _ hw => ?_
  simp at hw

end LocalSend.Lib
