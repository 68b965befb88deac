import Mathlib.Data.List.AList

/-!
# A cooldown for each key, in a table of bounded size

A key is served unless it was served less than `cooldown` ago, as the table of stamps remembers. The
table is emptied when a key is to be recorded and there is no room; then it has forgotten everybody.
So within a window shorter than the cooldown a key is served again only after the table was emptied,
and it takes as many other keys as the table has room for to fill it once more (`Tally.bound`).
-/

set_option autoImplicit false

namespace LocalSend.Lib

variable {κ : Type} [DecidableEq κ]

/-- When each key was served last. -/
abbrev Stamps (κ : Type) := AList fun _ : κ => Nat

namespace Stamps

/-- The key was served less than `cooldown` ago. -/
def isCooling (cooldown now : Nat) (t : Stamps κ) (k : κ) : Bool :=
  match t.lookup k with
  | some seen => now - seen < cooldown
  | none => false

/-- The key is served now. -/
def serve (capacity now : Nat) (t : Stamps κ) (k : κ) : Stamps κ :=
  (if t.entries.length ≥ capacity then ∅ else t).insert k now

theorem length_insert_le (t : Stamps κ) (k : κ) (now : Nat) :
    (t.insert k now).entries.length ≤ t.entries.length + 1 := by
  rw [AList.entries_insert, List.length_cons]
  exact Nat.succ_le_succ (List.kerase_sublist k t.entries).length_le

end Stamps

/-- In a window that began at `since`, the key `a` was served `mine` times and others `others` times,
and this is what the table is then. The potential counts what the others have filled in since the
table was last emptied. -/
inductive Tally (capacity since : Nat) (a : κ) (t : Stamps κ) (others : Nat) : Nat → Prop
  | unserved : Tally capacity since a t others 0
  | first {seen : Nat} : t.lookup a = some seen → since ≤ seen → Tally capacity since a t others 1
  | recorded {seen n : Nat} : t.lookup a = some seen → since ≤ seen →
    (capacity - 1) * n + t.entries.length ≤ others + 1 → Tally capacity since a t others (n + 2)
  | forgotten {n : Nat} : t.lookup a = none →
    (capacity - 1) * n + t.entries.length ≤ others → Tally capacity since a t others (n + 1)

namespace Tally

variable {capacity since cooldown now mine others : Nat} {a k : κ} {t : Stamps κ}

/-- Another key is served. -/
theorem other (h : Tally capacity since a t others mine) (hc : 0 < capacity) (hk : k ≠ a) :
    Tally capacity since a (t.serve capacity now k) (others + 1) mine := by
  unfold Stamps.serve
  split
  · -- the table is emptied, and only this key is in it
    rename_i hfull
    have hnone : ((∅ : Stamps κ).insert k now).lookup a = none := by
      rw [AList.lookup_insert_ne hk.symm, AList.lookup_empty]
    have hone : ((∅ : Stamps κ).insert k now).entries.length = 1 := rfl
    cases h with
    | unserved => exact .unserved
    | first hseen hsince => exact .forgotten hnone (by omega)
    | @recorded seen n hseen hsince hsum =>
      refine .forgotten hnone ?_
      rw [hone, Nat.mul_succ]
      omega
    | forgotten hlost hsum => exact .forgotten hnone (by omega)
  · have hlookup : (t.insert k now).lookup a = t.lookup a := AList.lookup_insert_ne hk.symm
    have hlen := Stamps.length_insert_le t k now
    cases h with
    | unserved => exact .unserved
    | first hseen hsince => exact .first (hlookup.trans hseen) hsince
    | recorded hseen hsince hsum => exact .recorded (hlookup.trans hseen) hsince (by omega)
    | forgotten hlost hsum => exact .forgotten (hlookup.trans hlost) (by omega)

/-- The key itself is served, which it is not while the table remembers it. -/
theorem same (h : Tally capacity since a t others mine) (hsince : since ≤ now)
    (hwindow : now - since < cooldown) (hserved : t.isCooling cooldown now a = false) :
    Tally capacity since a (t.serve capacity now a) others (mine + 1) := by
  have hrecorded : (t.serve capacity now a).lookup a = some now := AList.lookup_insert _
  have hlen : (t.serve capacity now a).entries.length ≤ t.entries.length + 1 := by
    unfold Stamps.serve
    split
    · exact Nat.succ_le_succ (Nat.zero_le _)
    · exact Stamps.length_insert_le t a now
  have hcools : ∀ {seen}, t.lookup a = some seen → since ≤ seen → False := by
    intro seen hseen hle
    unfold Stamps.isCooling at hserved
    rw [hseen] at hserved
    have := of_decide_eq_false hserved
    omega
  cases h with
  | unserved => exact .first hrecorded hsince
  | first hseen hle => exact (hcools hseen hle).elim
  | recorded hseen hle => exact (hcools hseen hle).elim
  | forgotten hlost hsum => exact .recorded hrecorded hsince (by omega)

/-- A key is served twice, and then once more for every table that the others fill. -/
theorem bound (h : Tally capacity since a t others mine) (hc : 1 < capacity) :
    mine ≤ 2 + others / (capacity - 1) := by
  have hpos : 0 < capacity - 1 := by omega
  have hdiv : ∀ {n}, (capacity - 1) * n ≤ others → n ≤ others / (capacity - 1) := by
    intro n hn
    rw [Nat.le_div_iff_mul_le hpos, Nat.mul_comm]
    exact hn
  cases h with
  | unserved => exact Nat.zero_le _
  | first => exact Nat.le_trans (Nat.le_succ 1) (Nat.le_add_right 2 _)
  | @recorded seen n hseen hsince hsum =>
    have hn := hdiv (n := n) ?_
    · omega
    · have hmem : t.entries ≠ [] := by
        intro hnil
        have hempty : t = ∅ := AList.ext hnil
        rw [hempty, AList.lookup_empty] at hseen
        cases hseen
      have := List.length_pos_iff.2 hmem
      omega
  | forgotten hlost hsum =>
    have hn := hdiv (Nat.le_trans (Nat.le_add_right _ _) hsum)
    omega

end Tally

end LocalSend.Lib
