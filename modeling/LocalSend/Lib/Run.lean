import Mathlib.Data.List.Chain
import Mathlib.Data.List.Induction

/-!
# Runs of an event-driven system, and histories

A `System` is a set of starting states and what each event does. `ReachedBy S ok` are the states
its runs reach when every event meets `ok` in the state it occurs in (`Reached S`: all runs), and
`ReachedBy.invariant` is the induction over them. A number that every step of a run makes less
bounds its length (`Allowed.length_le`).

A system that writes down what it does keeps a history. `Justified J h` says that every entry of
the history `h` is justified by the entries before it; `Justified.concat` extends it by one entry.
`last?` is the most recent entry of a kind. A history of switching on and off (`Alternates`) does so
by turns.
-/

set_option autoImplicit false

namespace LocalSend.Lib

variable {σ ε α : Type}

/-- An event-driven system. -/
structure System (σ ε : Type) where
  start : σ → Prop
  next : σ → ε → σ

/-- The states reached by runs whose events all meet `ok`. -/
inductive ReachedBy (S : System σ ε) (ok : σ → ε → Prop) : σ → Prop
  | start {s : σ} : S.start s → ReachedBy S ok s
  | next {s : σ} (e : ε) : ReachedBy S ok s → ok s e → ReachedBy S ok (S.next s e)

/-- The states reached by any run. -/
abbrev Reached (S : System σ ε) : σ → Prop := ReachedBy S fun _ _ => True

theorem ReachedBy.invariant {S : System σ ε} {ok : σ → ε → Prop} {I : σ → Prop}
    (h0 : ∀ s, S.start s → I s) (hstep : ∀ s e, I s → ok s e → I (S.next s e)) {s : σ}
    (h : ReachedBy S ok s) : I s := by
  induction h with
  | start hs => exact h0 _ hs
  | next e _ hok ih => exact hstep _ e ih hok

theorem ReachedBy.mono {S : System σ ε} {ok ok' : σ → ε → Prop} (hle : ∀ s e, ok s e → ok' s e)
    {s : σ} (h : ReachedBy S ok s) : ReachedBy S ok' s := by
  induction h with
  | start hs => exact .start hs
  | next e _ hok ih => exact .next e ih (hle _ _ hok)

theorem ReachedBy.reached {S : System σ ε} {ok : σ → ε → Prop} {s : σ} (h : ReachedBy S ok s) :
    Reached S s := h.mono fun _ _ _ => trivial

/-- The runs that go on from `s`. -/
def System.onward (S : System σ ε) (s : σ) : System σ ε := ⟨(· = s), S.next⟩

/-- Every event of the list meets `ok` where it occurs. -/
def Allowed (S : System σ ε) (ok : σ → ε → Prop) : σ → List ε → Prop
  | _, [] => True
  | s, e :: events => ok s e ∧ Allowed S ok (S.next s e) events

instance Allowed.decidable (S : System σ ε) (ok : σ → ε → Prop) [∀ s e, Decidable (ok s e)] :
    (s : σ) → (events : List ε) → Decidable (Allowed S ok s events)
  | _, [] => .isTrue trivial
  | s, e :: events => @instDecidableAnd _ _ _ (Allowed.decidable S ok (S.next s e) events)

theorem ReachedBy.run {S : System σ ε} {ok : σ → ε → Prop} : ∀ (events : List ε) {s : σ},
    ReachedBy S ok s → Allowed S ok s events → ReachedBy S ok (events.foldl S.next s)
  | [], _, h, _ => h
  | e :: events, _, h, hok => ReachedBy.run events (h.next e hok.1) hok.2

theorem ReachedBy.run_any {S : System σ ε} : ∀ (events : List ε) {s : σ}, Reached S s →
    Reached S (events.foldl S.next s)
  | [], _, h => h
  | e :: events, _, h => ReachedBy.run_any events (h.next e trivial)

/-- Where a condition on a step says exactly when the step keeps what holds, it holds all along a
run if and only if every step of the run meets the condition. -/
theorem always_iff_allowed {S : System σ ε} {ok : σ → ε → Prop} {I : σ → Prop}
    (hstep : ∀ s e, I s → (I (S.next s e) ↔ ok s e)) {s : σ} (h : I s) (events : List ε) :
    (∀ before, before <+: events → I (before.foldl S.next s)) ↔ Allowed S ok s events := by
  induction events generalizing s with
  | nil =>
    refine iff_of_true (fun before hb => ?_) trivial
    rw [List.prefix_nil.1 hb]
    exact h
  | cons e events ih =>
    constructor
    · intro hall
      have hnext : I (S.next s e) := hall [e] ⟨events, rfl⟩
      refine ⟨(hstep s e h).1 hnext, (ih hnext).1 fun before hb => ?_⟩
      exact hall (e :: before) (List.cons_prefix_cons.2 ⟨rfl, hb⟩)
    · rintro ⟨hok, hrest⟩ before hb
      cases before with
      | nil => exact h
      | cons d before =>
        obtain ⟨rfl, hbefore⟩ := List.cons_prefix_cons.1 hb
        exact (ih ((hstep s d h).2 hok)).2 hrest before hbefore

theorem Allowed.invariant {S : System σ ε} {ok : σ → ε → Prop} {I : σ → Prop}
    (hkept : ∀ s e, I s → ok s e → I (S.next s e)) : ∀ (events : List ε) {s : σ}, I s →
      Allowed S ok s events → I (events.foldl S.next s)
  | [], _, hI, _ => hI
  | e :: events, s, hI, hok => Allowed.invariant hkept events (hkept s e hI hok.1) hok.2

/-- What every step of a run makes less bounds the length of the run. -/
theorem Allowed.length_le {S : System σ ε} {ok : σ → ε → Prop} {I : σ → Prop} {rank : σ → Nat}
    (hkept : ∀ s e, I s → ok s e → I (S.next s e))
    (hless : ∀ s e, I s → ok s e → rank (S.next s e) < rank s) :
    ∀ (events : List ε) {s : σ}, I s → Allowed S ok s events →
      events.length + rank (events.foldl S.next s) ≤ rank s
  | [], _, _, _ => Nat.le_of_eq (Nat.zero_add _)
  | e :: events, s, hI, hok => by
    have hrest := Allowed.length_le hkept hless events (hkept s e hI hok.1) hok.2
    have hfirst := hless s e hI hok.1
    rw [List.foldl_cons, List.length_cons]
    omega

/-! ## Histories -/

/-- Every entry of the history is justified by the ones before it. -/
def Justified (J : List α → α → Prop) (h : List α) : Prop :=
  ∀ pre a post, h = pre ++ a :: post → J pre a

theorem Justified.nil {J : List α → α → Prop} : Justified J [] := by
  rintro pre a post h
  simp at h

theorem Justified.concat {J : List α → α → Prop} {h : List α} {a : α} (hh : Justified J h)
    (ha : J h a) : Justified J (h ++ [a]) := by
  rintro pre b post heq
  rcases List.eq_nil_or_concat post with rfl | ⟨post, c, rfl⟩
  · obtain ⟨rfl, hb⟩ := List.append_inj' heq rfl
    rw [List.singleton_inj] at hb
    exact hb ▸ ha
  · rw [List.concat_eq_append, ← List.cons_append, ← List.append_assoc] at heq
    obtain ⟨rfl, -⟩ := List.append_inj' heq rfl
    exact hh pre b post rfl

theorem Justified.of_append {J : List α → α → Prop} {h l : List α} (hh : Justified J (h ++ l)) :
    Justified J h := fun pre a post he => hh pre a (post ++ l) (by simp [he])

/-- The most recent entry that `f` picks out. -/
def last? {β : Type} (f : α → Option β) (h : List α) : Option β := h.reverse.findSome? f

@[simp] theorem last?_nil {β : Type} (f : α → Option β) : last? f [] = none := rfl

theorem last?_concat {β : Type} (f : α → Option β) (h : List α) (a : α) :
    last? f (h ++ [a]) = (f a).or (last? f h) := by
  unfold last?
  rw [List.reverse_append, List.reverse_singleton, List.singleton_append, List.findSome?_cons]
  cases f a <;> rfl

theorem exists_of_last? {β : Type} {f : α → Option β} {h : List α} {b : β}
    (hb : last? f h = some b) : ∃ a ∈ h, f a = some b := by
  obtain ⟨a, ha, hf⟩ := List.exists_of_findSome?_eq_some hb
  exact ⟨a, List.mem_reverse.1 ha, hf⟩

/-! ## Switching on and off -/

/-- On and off by turns, on first. -/
def Alternates (h : List Bool) : Prop := h.IsChain (· ≠ ·) ∧ h.head? ≠ some false

/-- What the last entry switched to. -/
def isOn (h : List Bool) : Bool := h.getLast?.getD false

@[simp] theorem isOn_nil : isOn [] = false := rfl

@[simp] theorem isOn_concat (h : List Bool) (b : Bool) : isOn (h ++ [b]) = b := by simp [isOn]

theorem Alternates.nil : Alternates [] := ⟨.nil, nofun⟩

theorem Alternates.concat {h : List Bool} {b : Bool} (hh : Alternates h) (hb : isOn h ≠ b) :
    Alternates (h ++ [b]) := by
  obtain ⟨hchain, hhead⟩ := hh
  rcases List.eq_nil_or_concat h with rfl | ⟨l, c, rfl⟩
  · refine ⟨.singleton _, fun hf => hb ?_⟩
    exact (Option.some.inj hf).symm
  · rw [List.concat_eq_append] at hchain hhead hb ⊢
    rw [isOn_concat] at hb
    refine ⟨?_, ?_⟩
    · rw [List.append_assoc]
      exact List.isChain_append_cons_cons.2 ⟨hchain, hb, .singleton _⟩
    · rwa [List.head?_append_of_ne_nil _ (List.concat_ne_nil c l)]

end LocalSend.Lib
