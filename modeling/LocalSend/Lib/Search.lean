import Mathlib.Data.List.Infix

/-!
# First occurrence of a pattern

`indexOf p l` is the position at which `p` first occurs in `l`. A reader that cuts a byte stream
at a delimiter sees more and more of the stream, so the facts below say how the answer on a part
relates to the answer on the whole: an occurrence found early stays (`indexOf_append`), and an
occurrence not yet complete is not found (`indexOf_eq_none_of_lt`). `Closes p a` says that `p`
delimits `a`: read after `a`, it is not found before the end of `a`.
-/

set_option autoImplicit false

namespace LocalSend.Lib

variable {α : Type} [DecidableEq α]

/-- Where `p` first occurs in a list. -/
def indexOf (p : List α) : List α → Option Nat
  | [] => if p = [] then some 0 else none
  | x :: l => if p.isPrefixOf (x :: l) then some 0 else (indexOf p l).map (· + 1)

theorem indexOf_eq_some {p : List α} {l : List α} {n : Nat} :
    indexOf p l = some n ↔ n ≤ l.length ∧ p <+: l.drop n ∧ ∀ m < n, ¬ p <+: l.drop m := by
  induction l generalizing n with
  | nil =>
    unfold indexOf
    split
    · rename_i h
      subst h
      constructor
      · rintro ⟨⟩; simp
      · rintro ⟨h, -, -⟩; rw [Nat.le_zero.1 h]
    · rename_i h
      simp [List.prefix_nil, h]
  | cons x l ih =>
    unfold indexOf
    split
    · rename_i h
      rw [List.isPrefixOf_iff_prefix] at h
      constructor
      · rintro ⟨⟩; exact ⟨Nat.zero_le _, h, fun m hm => absurd hm (Nat.not_lt_zero m)⟩
      · rintro ⟨-, -, hm⟩
        rcases Nat.eq_zero_or_pos n with rfl | hn
        · rfl
        · exact absurd h (hm 0 hn)
    · rename_i h
      rw [List.isPrefixOf_iff_prefix] at h
      rw [Option.map_eq_some_iff]
      constructor
      · rintro ⟨k, hk, rfl⟩
        obtain ⟨h1, h2, h3⟩ := ih.1 hk
        refine ⟨Nat.succ_le_succ h1, h2, fun m hm => ?_⟩
        cases m with
        | zero => exact h
        | succ m => exact h3 m (by omega)
      · rintro ⟨h1, h2, h3⟩
        cases n with
        | zero => exact absurd h2 h
        | succ n =>
          exact ⟨n, ih.2 ⟨by simpa using h1, h2, fun m hm => h3 (m + 1) (by omega)⟩, rfl⟩

/-- An occurrence is whole: it ends within the list. -/
theorem indexOf_le {p l : List α} {n : Nat} (h : indexOf p l = some n) :
    n + p.length ≤ l.length := by
  obtain ⟨h1, h2, -⟩ := indexOf_eq_some.1 h
  have := h2.length_le
  rw [List.length_drop] at this
  omega

omit [DecidableEq α] in
theorem prefix_drop_append {p l r : List α} {m : Nat} (h : m + p.length ≤ l.length) :
    p <+: (l ++ r).drop m ↔ p <+: l.drop m := by
  rw [List.drop_append_of_le_length (by omega)]
  constructor
  · intro hp
    exact List.prefix_of_prefix_length_le hp (List.prefix_append _ _)
      (by rw [List.length_drop]; omega)
  · exact fun hp => hp.trans (List.prefix_append _ _)

theorem indexOf_ne_none {p : List α} : ∀ {l : List α}, p <:+: l → indexOf p l ≠ none
  | [], h => by
    rw [List.infix_nil.1 h]
    exact nofun
  | x :: l, h => by
    unfold indexOf
    split
    · exact nofun
    · rename_i hp
      rcases List.infix_cons_iff.1 h with hp' | hl
      · exact absurd (List.isPrefixOf_iff_prefix.2 hp') hp
      · exact fun hnone => indexOf_ne_none hl (Option.map_eq_none_iff.1 hnone)

/-- A pattern is not found where its first symbol is not. -/
theorem indexOf_eq_none_of_notMem {a : α} {p l : List α} (h : a ∉ l) :
    indexOf (a :: p) l = none := by
  refine Option.eq_none_iff_forall_ne_some.2 fun n hn => h ?_
  obtain ⟨-, hp, -⟩ := indexOf_eq_some.1 hn
  exact List.mem_of_mem_drop (hp.subset List.mem_cons_self)

/-- An occurrence found stays the first one when more is read. -/
theorem indexOf_append {p l : List α} {n : Nat} (r : List α) (h : indexOf p l = some n) :
    indexOf p (l ++ r) = some n := by
  have hle := indexOf_le h
  obtain ⟨h1, h2, h3⟩ := indexOf_eq_some.1 h
  refine indexOf_eq_some.2 ⟨by rw [List.length_append]; omega,
    (prefix_drop_append hle).2 h2, fun m hm hp => h3 m hm ?_⟩
  exact (prefix_drop_append (by omega)).1 hp

/-- What has been read of a list holds no occurrence until the first one is whole. -/
theorem indexOf_eq_none_of_lt {p l r : List α} {n : Nat} (h : indexOf p (l ++ r) = some n)
    (hl : l.length < n + p.length) : indexOf p l = none := by
  refine Option.eq_none_iff_forall_ne_some.2 fun m hm => ?_
  have := indexOf_append r hm
  rw [h, Option.some.injEq] at this
  have := indexOf_le hm
  omega

/-- What has been read of a list up to its first occurrence has it at the same place. -/
theorem indexOf_of_append {p l r : List α} {n : Nat} (h : indexOf p (l ++ r) = some n)
    (hl : n + p.length ≤ l.length) : indexOf p l = some n := by
  obtain ⟨h1, h2, h3⟩ := indexOf_eq_some.1 h
  exact indexOf_eq_some.2 ⟨by omega, (prefix_drop_append hl).1 h2,
    fun m hm hp => h3 m hm ((prefix_drop_append (by omega)).2 hp)⟩

/-- `p` closes `a`: reading `a` and then `p`, the first occurrence of `p` is the one after `a`. -/
def Closes (p a : List α) : Prop := indexOf p (a ++ p) = some a.length

instance (p a : List α) : Decidable (Closes p a) := inferInstanceAs (Decidable (_ = _))

theorem Closes.first {p a : List α} (h : Closes p a) (r : List α) :
    indexOf p (a ++ p ++ r) = some a.length := indexOf_append r h

/-- A reader of `a`, `p` and more either has not read up to the end of the `p` yet, and does not
find it, or finds it and cuts off exactly `a`. -/
theorem Closes.cut {p a buf unread tail : List α} (h : Closes p a)
    (heq : buf ++ unread = a ++ p ++ tail) :
    (buf.length < a.length + p.length ∧ indexOf p buf = none ∧ unread ≠ []) ∨
    (a.length + p.length ≤ buf.length ∧ indexOf p buf = some a.length ∧ buf.take a.length = a ∧
      buf.drop (a.length + p.length) ++ unread = tail) := by
  have hall : indexOf p (buf ++ unread) = some a.length := by rw [heq]; exact h.first tail
  rcases Nat.lt_or_ge buf.length (a.length + p.length) with hlt | hge
  · refine .inl ⟨hlt, indexOf_eq_none_of_lt hall hlt, ?_⟩
    rintro rfl
    have := congrArg List.length heq
    simp only [List.append_nil, List.length_append] at this
    omega
  · refine .inr ⟨hge, indexOf_of_append hall hge, ?_, ?_⟩
    · have := congrArg (List.take a.length) heq
      rwa [List.take_append_of_le_length (by omega), List.append_assoc, List.take_left] at this
    · have := congrArg (List.drop (a.length + p.length)) heq
      rwa [List.drop_append_of_le_length hge, ← List.length_append, List.drop_left,
        List.length_append] at this

theorem closes_nil (p : List α) : Closes p [] := by
  rw [Closes, List.nil_append]
  exact indexOf_eq_some.2 ⟨Nat.zero_le _, List.prefix_rfl, fun m hm => absurd hm (Nat.not_lt_zero m)⟩

/-! ## Symbol by symbol -/

section
variable {σ : Type} {f : σ → α → σ} (collect done : List α → σ) {d : List α}

/-- A reader that collects symbols until it has a delimiter has collected all there is while there
is none. -/
theorem foldl_collect (miss : ∀ seen x, ¬ d <:+ seen ++ [x] →
      f (collect seen) x = collect (seen ++ [x])) {l : List α} (h : indexOf d l = none) :
    l.foldl f (collect []) = collect l := by
  induction l using List.reverseRecOn with
  | nil => rfl
  | append_singleton l x ih =>
    rw [List.foldl_append, ih, List.foldl_cons, List.foldl_nil, miss]
    · exact fun hd => indexOf_ne_none hd.isInfix h
    · refine Option.eq_none_iff_forall_ne_some.2 fun n hn => ?_
      cases (indexOf_append [x] hn).symm.trans h

/-- At the first delimiter it is done with what came before it. -/
theorem foldl_collect_done (hd : d ≠ [])
    (miss : ∀ seen x, ¬ d <:+ seen ++ [x] → f (collect seen) x = collect (seen ++ [x]))
    (hit : ∀ seen x, d <:+ seen ++ [x] →
      f (collect seen) x = done ((seen ++ [x]).take ((seen ++ [x]).length - d.length)))
    {l : List α} {n : Nat} (h : indexOf d l = some n) :
    (l.take (n + d.length)).foldl f (collect []) = done (l.take n) := by
  have hle := indexOf_le h
  obtain ⟨-, hp, -⟩ := indexOf_eq_some.1 h
  have hlen : (l.take (n + d.length)).length = n + d.length := by
    rw [List.length_take, Nat.min_eq_left hle]
  have hsuffix : d <:+ l.take (n + d.length) := by
    refine ⟨l.take n, ?_⟩
    rw [List.take_add, List.append_cancel_left_eq]
    exact List.prefix_iff_eq_take.1 hp
  have hne : l.take (n + d.length) ≠ [] := by
    intro hnil
    rw [hnil, List.suffix_nil] at hsuffix
    exact hd hsuffix
  obtain ⟨seen, x, hx⟩ : ∃ seen x, l.take (n + d.length) = seen ++ [x] :=
    ⟨_, _, (List.dropLast_append_getLast hne).symm⟩
  -- nothing is found before the last symbol of the delimiter
  have hnone : indexOf d seen = none := by
    have hseen : seen ++ ([x] ++ l.drop (n + d.length)) = l := by
      rw [← List.append_assoc, ← hx, List.take_append_drop]
    refine indexOf_eq_none_of_lt (r := [x] ++ l.drop (n + d.length)) (hseen.symm ▸ h) ?_
    have hcount := congrArg List.length hx
    rw [hlen, List.length_append, List.length_singleton] at hcount
    omega
  rw [hx, List.foldl_append, foldl_collect collect miss hnone, List.foldl_cons, List.foldl_nil,
    hit seen x (hx ▸ hsuffix), ← hx, hlen, Nat.add_sub_cancel, List.take_take]
  congr 2
  omega

end

end LocalSend.Lib
