import Mathlib.Data.List.Basic
import Mathlib.Order.Lattice

/-!
# Coalesced notices

Things under an index are written to, and an observer is told of it later: the writes are gathered
into one span of indices, and telling of the span tells of all of it. The history of `Notice`s has
an entry for each write and for each time the observer is told. `Untold i h`: index `i` was written
to, and nothing has told of it since.

`Gathers s h` is what coalescing has to keep: the span `s` has every index that is untold. A write
has to be in the span from then on (`Gathers.wrote`); telling of the span, or of everything, leaves
nothing untold (`not_untold_tell`, `not_untold_all`).
-/

set_option autoImplicit false

namespace LocalSend.Lib

/-- A write, or what the observer is told: of a span, or of everything. -/
inductive Notice (ι : Type)
  | wrote (i : ι)
  | span (first last : ι)
  | all
  deriving DecidableEq

section

variable {ι : Type} [LinearOrder ι] {i j : ι} {s s' : Option (ι × ι)} {h l : List (Notice ι)}

/-- The notice tells of the index. -/
def Notice.Covers : Notice ι → ι → Prop
  | .wrote _, _ => False
  | .span first last, i => first ≤ i ∧ i ≤ last
  | .all, _ => True

def Untold (i : ι) (h : List (Notice ι)) : Prop :=
  ∃ before after, h = before ++ .wrote i :: after ∧ ∀ n ∈ after, ¬ n.Covers i

/-- The index is in the span, which includes both its ends; `none` is the empty span. -/
def Within (s : Option (ι × ι)) (i : ι) : Prop :=
  ∃ first last, s = some (first, last) ∧ first ≤ i ∧ i ≤ last

/-- The span, if there is one, ends before `n`. -/
def EndsBefore (s : Option (ι × ι)) (n : ι) : Prop :=
  ∀ first last, s = some (first, last) → first ≤ last ∧ last < n

def extend : Option (ι × ι) → ι → Option (ι × ι)
  | none, i => some (i, i)
  | some (first, last), i => some (min first i, max last i)

/-- The notice of a span. -/
def tell : Option (ι × ι) → List (Notice ι)
  | none => []
  | some (first, last) => [.span first last]

def Gathers (s : Option (ι × ι)) (h : List (Notice ι)) : Prop := ∀ i, Untold i h → Within s i

/-! ## Spans -/

theorem not_within_none : ¬ Within (none : Option (ι × ι)) i := by
  rintro ⟨first, last, h, -⟩
  cases h

theorem within_extend_self : Within (extend s i) i := by
  rcases s with - | ⟨first, last⟩
  · exact ⟨i, i, rfl, le_rfl, le_rfl⟩
  · exact ⟨_, _, rfl, min_le_right _ _, le_max_right _ _⟩

theorem within_extend (hi : Within s i) : Within (extend s j) i := by
  obtain ⟨first, last, rfl, hfirst, hlast⟩ := hi
  exact ⟨_, _, rfl, (min_le_left _ _).trans hfirst, hlast.trans (le_max_left _ _)⟩

theorem endsBefore_none {n : ι} : EndsBefore none n := by
  intro first last h
  cases h

theorem EndsBefore.extend {n : ι} (hs : EndsBefore s n) (hi : i < n) : EndsBefore (extend s i) n := by
  intro first last h
  rcases s with - | ⟨a, b⟩
  · cases h
    exact ⟨le_rfl, hi⟩
  · obtain ⟨hab, hb⟩ := hs a b rfl
    cases h
    exact ⟨(min_le_left _ _).trans (hab.trans (le_max_left _ _)), max_lt hb hi⟩

/-! ## What is untold -/

theorem not_untold_nil : ¬ Untold i ([] : List (Notice ι)) := by
  rintro ⟨before, after, h, -⟩
  simp at h

theorem untold_append :
    Untold i (h ++ l) ↔ Untold i l ∨ (Untold i h ∧ ∀ n ∈ l, ¬ n.Covers i) := by
  constructor
  · rintro ⟨before, after, heq, hafter⟩
    rcases List.append_eq_append_iff.1 heq with ⟨m, rfl, hl⟩ | ⟨m, rfl, hm⟩
    · exact .inl ⟨m, after, hl, hafter⟩
    · cases m with
      | nil => exact .inl ⟨[], after, by simpa using hm.symm, hafter⟩
      | cons n m =>
        obtain ⟨rfl, rfl⟩ := List.cons.inj hm
        refine .inr ⟨⟨before, m, rfl, fun n hn => ?_⟩, fun n hn => ?_⟩
        · exact hafter n (by simp [hn])
        · exact hafter n (by simp [hn])
  · rintro (⟨before, after, rfl, hafter⟩ | ⟨⟨before, after, rfl, hafter⟩, hl⟩)
    · exact ⟨h ++ before, after, by simp, hafter⟩
    · refine ⟨before, after ++ l, by simp, fun n hn => ?_⟩
      rcases List.mem_append.1 hn with hn | hn
      · exact hafter n hn
      · exact hl n hn

theorem untold_writes {written : List ι} (hi : Untold i (written.map Notice.wrote)) :
    i ∈ written := by
  obtain ⟨before, after, heq, -⟩ := hi
  have hmem : Notice.wrote i ∈ written.map Notice.wrote := by simp [heq]
  simpa using hmem

theorem not_untold_of_covers {n : Notice ι} (hn : n.Covers i) : ¬ Untold i (h ++ [n]) := by
  intro hi
  rcases untold_append.1 hi with ⟨before, after, heq, -⟩ | ⟨-, hnone⟩
  · have hmem : Notice.wrote i ∈ [n] := by simp [heq]
    cases List.mem_singleton.1 hmem
    exact hn
  · exact hnone n (by simp) hn

/-! ## Coalescing -/

theorem Gathers.nil : Gathers s [] := fun _ hi => absurd hi not_untold_nil

/-- The span grows, and has all that is written to. -/
theorem Gathers.wrote (hg : Gathers s h) {written : List ι} (hle : ∀ i, Within s i → Within s' i)
    (hwritten : ∀ i ∈ written, Within s' i) : Gathers s' (h ++ written.map .wrote) := by
  intro i hi
  rcases untold_append.1 hi with hi | ⟨hi, -⟩
  · exact hwritten i (untold_writes hi)
  · exact hle i (hg i hi)

theorem not_untold_all : ¬ Untold i (h ++ [.all]) := not_untold_of_covers trivial

theorem not_untold_tell (hg : Gathers s h) : ¬ Untold i (h ++ tell s) := by
  intro hi
  rcases s with - | ⟨first, last⟩
  · have hi : Untold i h := by simpa [tell] using hi
    exact not_within_none (hg i hi)
  · -- an index outside the span was told of before
    rcases untold_append.1 hi with ⟨before, after, heq, -⟩ | ⟨hold, hnone⟩
    · have hmem : Notice.wrote i ∈ tell (some (first, last)) := by simp [heq]
      simp [tell] at hmem
    · obtain ⟨a, b, hab, hin⟩ := hg i hold
      cases hab
      exact hnone (.span first last) (by simp [tell]) hin

end

end LocalSend.Lib
