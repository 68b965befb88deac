import Mathlib.Data.List.DropRight

/-!
# Splitting a list at its last separator

`Splits sep l a b` says that `l` is `a`, a separator and `b`, and that this separator is the last
one. A list that has a separator splits in exactly one way (`exists_splits`, `Splits.unique`), and
the two parts are what dropping and taking from the back finds (`Splits.rtakeWhile`,
`Splits.rdropWhile`).
-/

set_option autoImplicit false

namespace LocalSend.Lib

variable {α : Type} {sep : α} {l a b a' b' : List α}

structure Splits (sep : α) (l a b : List α) : Prop where
  eq : l = a ++ sep :: b
  last : sep ∉ b

theorem exists_splits [DecidableEq α] (h : sep ∈ l) : ∃ a b, Splits sep l a b := by
  obtain ⟨b, a, heq, hb⟩ := List.eq_append_cons_of_mem (List.mem_reverse.2 h)
  refine ⟨a.reverse, b.reverse, ?_, by simpa using hb⟩
  have hl := congrArg List.reverse heq
  simpa using hl

/-- What stands behind a separator, without one of its own, is what stands behind the last. -/
theorem Splits.suffix_iff (h : Splits sep l a b) (hb : sep ∉ b') : sep :: b' <:+ l ↔ b' = b := by
  constructor
  · intro ⟨c, hc⟩
    rw [h.eq] at hc
    rcases List.append_eq_append_iff.1 hc with ⟨d, -, hd⟩ | ⟨d, -, hd⟩
    · cases d with
      | nil => exact (List.cons.inj hd).2
      | cons e d =>
        have htail : b' = d ++ sep :: b := (List.cons.inj hd).2
        exact absurd (by simp [htail]) hb
    · cases d with
      | nil => exact (List.cons.inj hd).2.symm
      | cons e d =>
        have htail : b = d ++ sep :: b' := (List.cons.inj hd).2
        exact absurd (by simp [htail]) h.last
  · intro heq
    rw [heq, h.eq]
    exact List.suffix_append _ _

theorem Splits.unique (h : Splits sep l a b) (h' : Splits sep l a' b') : a' = a ∧ b' = b := by
  have hb : b' = b := (h.suffix_iff h'.last).1 ⟨a', h'.eq.symm⟩
  have heq := h'.eq
  rw [h.eq, hb] at heq
  exact ⟨(List.append_cancel_right heq).symm, hb⟩

theorem Splits.mem (h : Splits sep l a b) : sep ∈ l := by simp [h.eq]

variable [DecidableEq α]

theorem Splits.rtakeWhile (h : Splits sep l a b) : l.rtakeWhile (· != sep) = b := by
  have hall : ∀ c ∈ b.reverse, (c != sep) = true := by
    intro c hc
    have hne : c ≠ sep := fun heq => h.last (heq ▸ List.mem_reverse.1 hc)
    simpa using hne
  simp [List.rtakeWhile, h.eq, List.takeWhile_append_of_pos hall]

theorem Splits.rdropWhile (h : Splits sep l a b) : l.rdropWhile (· != sep) = a ++ [sep] := by
  have happ : l.rdropWhile (· != sep) ++ l.rtakeWhile (· != sep) = l :=
    List.rdropWhile_append_rtakeWhile
  have heq : l = a ++ [sep] ++ b := by simp [h.eq]
  rw [h.rtakeWhile] at happ
  exact List.append_cancel_right (happ.trans heq)

omit [DecidableEq α] in
/-- A list that has no separator has none in front of anything. -/
theorem not_suffix_of_not_mem (h : sep ∉ l) (b : List α) : ¬ sep :: b <:+ l :=
  fun hb => h (hb.subset (by simp))

end LocalSend.Lib
