import LocalSend.Core.Protocol
import LocalSend.Qt.Surrogates

/-!
# What the text filter does to a string

`sanitizeText` is a sieve (`sanitizeText_eq_sieve`): it drops units wherever they stand, cuts what
is left, and trims what the cut left. Its fixed points are the strings it can return
(`sanitizeText_laws`). The cut counts code units, so it can part a surrogate pair
(`sanitizeText_wellFormed_iff`).
-/

set_option autoImplicit false

namespace LocalSend.Protocol

/-- What `sanitizeText` does not drop. -/
def isKept (c : QChar) : Bool := !isStripped c

theorem keepClean_eq : ∀ (text : QString) (room : Nat),
    keepClean text room = (text.filter isKept).take room
  | [], room => by simp [keepClean]
  | c :: text, 0 => by simp [keepClean]
  | c :: text, room + 1 => by
    unfold keepClean
    by_cases hc : isStripped c = true
    · rw [if_pos hc, keepClean_eq text (room + 1), List.filter_cons_of_neg (by simp [isKept, hc])]
    · rw [if_neg hc, keepClean_eq text room, List.filter_cons_of_pos (by simp [isKept, hc]),
        List.take_succ_cons]

theorem trimmed_eq (s : QString) : QString.trimmed s = Lib.trim QString.isSpace s := rfl

theorem sanitizeText_eq_sieve (text : QString) (maxLength : Nat) :
    sanitizeText text maxLength = Lib.sieve isKept QString.isSpace maxLength text := by
  unfold sanitizeText
  rw [keepClean_eq, trimmed_eq]
  rfl

theorem length_sanitizeText_le (text : QString) (maxLength : Nat) :
    (sanitizeText text maxLength).length ≤ maxLength := by
  rw [sanitizeText_eq_sieve]
  exact Lib.length_sieve_le isKept QString.isSpace maxLength text

theorem clean_iff {s : QString} : Clean s ↔ ∀ c ∈ s, isKept c = true := by
  simp [Clean, isKept]

/-- No white space at either end. -/
abbrev Tight (s : QString) : Prop := Lib.Tight QString.isSpace s

theorem sanitizeText_eq_self_iff (s : QString) (maxLength : Nat) :
    sanitizeText s maxLength = s ↔ s.length ≤ maxLength ∧ Clean s ∧ Tight s := by
  rw [sanitizeText_eq_sieve, Lib.sieve_eq_self_iff, clean_iff]

theorem sanitizeText_idem (text : QString) (maxLength : Nat) :
    sanitizeText (sanitizeText text maxLength) maxLength = sanitizeText text maxLength := by
  rw [sanitizeText_eq_sieve, sanitizeText_eq_sieve]
  exact Lib.sieve_sieve isKept QString.isSpace maxLength text

/-- What comes out is short, part of the text, clean and tight, and comes out of a second pass as
it is; a string that is short, clean and tight comes out as it is. -/
theorem sanitizeText_laws (text : QString) (maxLength : Nat) :
    (sanitizeText text maxLength).length ≤ maxLength ∧
    (sanitizeText text maxLength).Sublist text ∧
    Clean (sanitizeText text maxLength) ∧ Tight (sanitizeText text maxLength) ∧
    sanitizeText (sanitizeText text maxLength) maxLength = sanitizeText text maxLength ∧
    (sanitizeText text maxLength = text ↔
      text.length ≤ maxLength ∧ Clean text ∧ Tight text) := by
  refine ⟨length_sanitizeText_le text maxLength, ?_, sanitizeText_clean text maxLength, ?_,
    sanitizeText_idem text maxLength, sanitizeText_eq_self_iff text maxLength⟩
  · rw [sanitizeText_eq_sieve]
    exact Lib.sieve_sublist isKept QString.isSpace maxLength text
  · rw [sanitizeText_eq_sieve]
    exact Lib.sieve_tight isKept QString.isSpace maxLength text

/-! ## Surrogates -/

theorem isKept_surrogate {c : QChar} (h : QString.isSurrogate c = true) : isKept c = true := by
  simp only [QString.isSurrogate, QString.isHighSurrogate, QString.isLowSurrogate,
    Bool.or_eq_true, Bool.and_eq_true, decide_eq_true_eq, UInt16.le_iff_toNat_le,
    UInt16.reduceToNat] at h
  simp only [isKept, isStripped, Bool.not_eq_true', Bool.or_eq_false_iff, Bool.and_eq_false_iff,
    beq_eq_false_iff_ne, decide_eq_false_iff_not, ne_eq, UInt16.le_iff_toNat_le,
    UInt16.lt_iff_toNat_lt, ← UInt16.toNat_inj, UInt16.reduceToNat]
  omega

/-- No high surrogate of the text has exactly `maxLength - 1` units that are kept before it, so the
cut parts no pair. -/
def Whole (text : QString) (maxLength : Nat) : Prop :=
  ∀ i c, text[i]? = some c → QString.isHighSurrogate c = true →
    ((text.take i).filter isKept).length + 1 ≠ maxLength

/-- Where an element that the filter keeps comes from. -/
theorem getElem?_filter {α : Type} {p : α → Bool} {a : α} : ∀ {l : List α} {k : Nat},
    (l.filter p)[k]? = some a → ∃ i, l[i]? = some a ∧ ((l.take i).filter p).length = k
  | [], k, h => by simp at h
  | b :: l, k, h => by
    by_cases hb : p b = true
    · rw [List.filter_cons_of_pos hb] at h
      cases k with
      | zero => exact ⟨0, by simpa using h, rfl⟩
      | succ k =>
        obtain ⟨i, hi, hk⟩ := getElem?_filter (by simpa using h : (l.filter p)[k]? = some a)
        exact ⟨i + 1, by simpa using hi, by simp [hb, hk]⟩
    · rw [List.filter_cons_of_neg hb] at h
      obtain ⟨i, hi, hk⟩ := getElem?_filter h
      exact ⟨i + 1, by simpa using hi, by simp [hb, hk]⟩

theorem filter_split {α : Type} (p : α → Bool) {l : List α} {i : Nat} {a : α}
    (h : l[i]? = some a) (ha : p a = true) :
    l.filter p = (l.take i).filter p ++ a :: (l.drop (i + 1)).filter p := by
  have hi : i < l.length := (List.getElem?_eq_some_iff.1 h).1
  have hget : l[i] = a := (List.getElem?_eq_some_iff.1 h).2
  have hsplit : l = l.take i ++ a :: l.drop (i + 1) := by
    rw [← hget, List.getElem_cons_drop, List.take_append_drop]
  calc l.filter p = (l.take i ++ a :: l.drop (i + 1)).filter p := by rw [← hsplit]
    _ = (l.take i).filter p ++ a :: (l.drop (i + 1)).filter p := by simp [ha]

theorem whole_iff {text : QString} (h : text.WellFormed) (maxLength : Nat) :
    Whole text maxLength ↔
      ∀ c ∈ ((text.filter isKept).take maxLength).getLast?, QString.isHighSurrogate c = false := by
  have hkept : QString.WellFormed (text.filter isKept) := h.filter fun _ => isKept_surrogate
  constructor
  · intro hwhole c hc
    refine Bool.eq_false_iff.2 fun hhigh => ?_
    have hne : (text.filter isKept).take maxLength ≠ [] := by
      intro hnil
      rw [hnil] at hc
      simp at hc
    have hlast : ((text.filter isKept).take maxLength)[
        ((text.filter isKept).take maxLength).length - 1]? = some c := by
      rw [← List.getLast?_eq_getElem?]
      exact hc
    by_cases hlen : maxLength ≤ (text.filter isKept).length
    · have htake : ((text.filter isKept).take maxLength).length = maxLength := by
        rw [List.length_take]
        omega
      have hpos := List.length_pos_iff.2 hne
      rw [htake, List.getElem?_take_of_lt (by omega)] at hlast
      obtain ⟨i, hi, hk⟩ := getElem?_filter hlast
      exact hwhole i c hi hhigh (by omega)
    · -- nothing is cut off, and the last unit of what is kept has its partner before it
      rw [List.take_of_length_le (by omega)] at hc
      have hfull := (QString.wellFormed_take hkept (text.filter isKept).length).1
      rw [List.take_length] at hfull
      rw [hfull hkept c hc] at hhigh
      exact Bool.noConfusion hhigh
  · intro hlast i c hi hhigh hlen
    have hsplit := filter_split isKept hi (isKept_surrogate (by simp [QString.isSurrogate, hhigh]))
    have htake : (text.filter isKept).take maxLength = (text.take i).filter isKept ++ [c] := by
      rw [hsplit, ← hlen, List.take_append]
      simp
    rw [htake] at hlast
    rw [hlast c (by simp)] at hhigh
    exact Bool.noConfusion hhigh

/-- A well-formed string is still well formed afterwards if and only if no pair is parted. -/
theorem sanitizeText_wellFormed_iff {text : QString} (h : text.WellFormed) (maxLength : Nat) :
    (sanitizeText text maxLength).WellFormed ↔ Whole text maxLength := by
  have hkept : QString.WellFormed (text.filter isKept) := h.filter fun _ => isKept_surrogate
  rw [whole_iff h, ← QString.wellFormed_take hkept, sanitizeText, keepClean_eq, trimmed_eq]
  unfold QString.WellFormed
  rw [QString.isWellFormed_trim]

/-- An alias that ends, with a pair, where it would be cut. -/
def fullAlias : QString := List.replicate 62 97 ++ [0xD83D, 0xDE00]

theorem sanitizeText_wellFormed_fits : (sanitizeText fullAlias 64).WellFormed := by
  have htext : fullAlias.WellFormed := by decide +kernel
  have hlast : ((fullAlias.filter isKept).take 64).getLast? = some 0xDE00 := by decide +kernel
  refine (sanitizeText_wellFormed_iff htext 64).2 ((whole_iff htext 64).2 fun c hc => ?_)
  obtain rfl := Option.some.inj (hlast.symm.trans hc)
  decide

/-- The last character of this alias is a pair, of which one half fits. -/
theorem sanitizeText_parts_pair :
    ¬ ∀ (text : QString) (maxLength : Nat), text.WellFormed →
      (sanitizeText text maxLength).WellFormed := by
  intro h
  have hcut := h (List.replicate 63 97 ++ [0xD83D, 0xDE00]) 64 (by decide)
  revert hcut
  decide

end LocalSend.Protocol
