import Mathlib.Data.List.DropRight

/-!
# Trimming and sieving a list

`trim p l` is `l` without what `p` holds of at its two ends. `sieve keep p n l` keeps the elements
that `keep` holds of, at most `n` of them, and trims what is left. Its fixed points are the lists
that it could have returned (`sieve_eq_self_iff`), so sieving twice is sieving once.
-/

set_option autoImplicit false

namespace LocalSend.Lib

variable {α : Type} {p keep : α → Bool} {n : Nat} {l : List α}

/-- `p` holds of neither end. -/
def Tight (p : α → Bool) (l : List α) : Prop :=
  (∀ a ∈ l.head?, p a = false) ∧ ∀ a ∈ l.getLast?, p a = false

def trim (p : α → Bool) (l : List α) : List α := (l.dropWhile p).rdropWhile p

theorem trim_within (p : α → Bool) (l : List α) : trim p l <:+: l :=
  (List.rdropWhile_prefix p _).isInfix.trans (List.dropWhile_suffix p).isInfix

theorem trim_sublist (p : α → Bool) (l : List α) : (trim p l).Sublist l := (trim_within p l).sublist

theorem trim_tight (p : α → Bool) (l : List α) : Tight p (trim p l) := by
  constructor
  · intro a ha
    -- the first element is the one the front was cut at
    have hhead : a ∈ (l.dropWhile p).head? := by
      obtain ⟨rest, hrest⟩ := List.rdropWhile_prefix p (l.dropWhile p)
      rw [← hrest, List.head?_append]
      have ha : ((l.dropWhile p).rdropWhile p).head? = some a := ha
      rw [ha]
      rfl
    have hnot := List.head?_dropWhile_not p l
    have hhead : (l.dropWhile p).head? = some a := hhead
    rw [hhead] at hnot
    simpa using hnot
  · intro a ha
    have hne : trim p l ≠ [] := by
      intro hnil
      rw [hnil] at ha
      simp at ha
    have hlast : (trim p l).getLast hne = a := by
      rw [List.getLast?_eq_some_getLast hne] at ha
      simpa using ha
    have hnot := List.rdropWhile_last_not p (l.dropWhile p) hne
    have hnot : ¬ p ((trim p l).getLast hne) = true := hnot
    rw [hlast] at hnot
    simpa using hnot

theorem trim_of_tight (h : Tight p l) : trim p l = l := by
  have hfront : l.dropWhile p = l := by
    cases l with
    | nil => rfl
    | cons a l =>
      have ha : p a = false := h.1 a (by simp)
      rw [List.dropWhile_cons_of_neg (by simp [ha])]
  unfold trim
  rw [hfront, List.rdropWhile_eq_self_iff]
  intro hne
  have hlast := h.2 (l.getLast hne) (List.getLast?_eq_some_getLast hne)
  simp [hlast]

/-- What `p` holds of is taken from around a list. -/
theorem trim_around {a b : List α} (h : Tight p l) (ha : ∀ c ∈ a, p c = true)
    (hb : ∀ c ∈ b, p c = true) : trim p (a ++ (l ++ b)) = l := by
  have hfront : (a ++ (l ++ b)).dropWhile p = (l ++ b).dropWhile p := List.dropWhile_append_of_pos ha
  have hback : (l ++ b).rdropWhile p = l.rdropWhile p := by
    unfold List.rdropWhile
    rw [List.reverse_append, List.dropWhile_append_of_pos]
    intro c hc
    exact hb c (List.mem_reverse.1 hc)
  unfold trim
  rw [hfront]
  cases l with
  | nil =>
    rw [List.nil_append, List.dropWhile_eq_nil_iff.2 hb]
    rfl
  | cons c l =>
    have hc : p c = false := h.1 c (by simp)
    have hkeep : ((c :: l) ++ b).dropWhile p = (c :: l) ++ b := by
      rw [List.cons_append, List.dropWhile_cons_of_neg (by simp [hc])]
    have hself := trim_of_tight h
    unfold trim at hself
    rw [List.dropWhile_cons_of_neg (by simp [hc])] at hself
    rw [hkeep, hback, hself]

/-! ## Sieving -/

def sieve (keep p : α → Bool) (n : Nat) (l : List α) : List α := trim p ((l.filter keep).take n)

theorem sieve_sublist (keep p : α → Bool) (n : Nat) (l : List α) : (sieve keep p n l).Sublist l :=
  (trim_sublist p _).trans ((List.take_sublist n _).trans List.filter_sublist)

theorem length_sieve_le (keep p : α → Bool) (n : Nat) (l : List α) :
    (sieve keep p n l).length ≤ n := by
  refine Nat.le_trans (trim_sublist p _).length_le ?_
  rw [List.length_take]
  omega

theorem sieve_keeps {a : α} (h : a ∈ sieve keep p n l) : keep a = true := by
  have hmem := (List.take_sublist n _).subset ((trim_sublist p _).subset h)
  exact (List.mem_filter.1 hmem).2

theorem sieve_tight (keep p : α → Bool) (n : Nat) (l : List α) : Tight p (sieve keep p n l) :=
  trim_tight p _

theorem sieve_eq_self_iff :
    sieve keep p n l = l ↔ l.length ≤ n ∧ (∀ a ∈ l, keep a = true) ∧ Tight p l := by
  constructor
  · intro h
    rw [← h]
    exact ⟨length_sieve_le keep p n l, fun a ha => sieve_keeps ha, sieve_tight keep p n l⟩
  · intro ⟨hlength, hkeep, htight⟩
    have hall : l.filter keep = l := List.filter_eq_self.2 hkeep
    unfold sieve
    rw [hall, List.take_of_length_le hlength]
    exact trim_of_tight htight

theorem sieve_sieve (keep p : α → Bool) (n : Nat) (l : List α) :
    sieve keep p n (sieve keep p n l) = sieve keep p n l :=
  sieve_eq_self_iff.2 ⟨length_sieve_le keep p n l, fun _ ha => sieve_keeps ha,
    sieve_tight keep p n l⟩

end LocalSend.Lib
