import LocalSend.Lib.Sieve
import LocalSend.Qt.Utf8

/-!
# Cutting up well-formed strings

What becomes of a well-formed string that is cut: dropping or adding whole code units that are no
surrogates does not matter (`isWellFormed_append_plain`, `WellFormed.filter`), and a cut is right
unless the last unit kept is a high surrogate, as that has lost its partner (`wellFormed_take`).
White space is no surrogate, so trimming changes nothing about it (`isWellFormed_trim`).

The bytes of two strings in a row are the bytes of each, unless a pair meets at the seam
(`toUtf8_append`).
-/

set_option autoImplicit false

namespace LocalSend.QString

def isSurrogate (c : QChar) : Bool := isHighSurrogate c || isLowSurrogate c

theorem not_low_of_high {c : QChar} (h : isHighSurrogate c = true) : isLowSurrogate c = false := by
  simp only [isHighSurrogate, isLowSurrogate, Bool.and_eq_true, decide_eq_true_eq,
    Bool.and_eq_false_iff, decide_eq_false_iff_not, UInt16.le_iff_toNat_le,
    UInt16.reduceToNat] at h ⊢
  omega

theorem isSpace_plain {c : QChar} (h : isSurrogate c = true) : isSpace c = false := by
  simp only [isSurrogate, isHighSurrogate, isLowSurrogate, Bool.or_eq_true, Bool.and_eq_true,
    decide_eq_true_eq, UInt16.le_iff_toNat_le, UInt16.reduceToNat] at h
  simp only [isSpace, Bool.or_eq_false_iff, Bool.and_eq_false_iff, beq_eq_false_iff_ne,
    decide_eq_false_iff_not, ne_eq, UInt16.le_iff_toNat_le, ← UInt16.toNat_inj,
    UInt16.reduceToNat]
  omega

@[simp] theorem isWellFormed_cons_plain {c : QChar} {s : QString} (h : isSurrogate c = false) :
    isWellFormed (c :: s) = isWellFormed s := by
  have hc := Bool.or_eq_false_iff.1 h
  cases s with
  | nil => simp [isWellFormed, hc.1, hc.2]
  | cons d s =>
    rw [isWellFormed]
    simp [hc.1, hc.2]

theorem isWellFormed_plain_append {a : QString} (h : ∀ c ∈ a, isSurrogate c = false) (s : QString) :
    isWellFormed (a ++ s) = isWellFormed s := by
  induction a with
  | nil => rfl
  | cons c a ih =>
    rw [List.cons_append, isWellFormed_cons_plain (h c (by simp))]
    exact ih fun d hd => h d (by simp [hd])

theorem isWellFormed_append_plain (s : QString) {b : QString} (h : ∀ c ∈ b, isSurrogate c = false) :
    isWellFormed (s ++ b) = isWellFormed s := by
  have hb : isWellFormed b = true := by
    have hnil := isWellFormed_plain_append h []
    rw [List.append_nil] at hnil
    exact hnil
  fun_induction isWellFormed s with
  | case1 => exact hb
  | case2 c =>
    by_cases hc : isSurrogate c = true
    · -- what follows a surrogate is not its partner
      cases b with
      | nil => rfl
      | cons d b =>
        have hd := Bool.or_eq_false_iff.1 (h d (by simp))
        rcases Bool.or_eq_true_iff.1 hc with hc | hc <;> simp [isWellFormed, hc, hd.2]
    · have hc : isSurrogate c = false := by simpa using hc
      have hc' := Bool.or_eq_false_iff.1 hc
      simp [isWellFormed_cons_plain hc, hb, hc'.1, hc'.2]
  | case3 c d s hp ih =>
    rw [List.cons_append, List.cons_append, isWellFormed, if_pos hp]
    exact ih
  | case4 c d s hp ih =>
    rw [List.cons_append, List.cons_append, isWellFormed, if_neg hp]
    rw [List.cons_append] at ih
    rw [ih]

theorem WellFormed.filter {keep : QChar → Bool} (hkeep : ∀ c, isSurrogate c = true → keep c = true)
    {s : QString} (h : s.WellFormed) : WellFormed (s.filter keep) := by
  unfold WellFormed at *
  fun_induction isWellFormed s with
  | case1 => rfl
  | case2 c =>
    have hc : isSurrogate c = false := by simpa [isSurrogate] using h
    by_cases hk : keep c = true
    · rw [List.filter_cons_of_pos hk]
      exact h
    · simp [hk, isWellFormed]
  | case3 c d s hp ih =>
    obtain ⟨hc, hd⟩ := Bool.and_eq_true_iff.1 hp
    have hkc := hkeep c (by simp [isSurrogate, hc])
    have hkd := hkeep d (by simp [isSurrogate, hd])
    rw [List.filter_cons_of_pos hkc, List.filter_cons_of_pos hkd, isWellFormed, if_pos hp]
    exact ih h
  | case4 c d s hp ih =>
    obtain ⟨hc, hs⟩ := Bool.and_eq_true_iff.1 h
    have hc : isSurrogate c = false := by simpa [isSurrogate] using hc
    by_cases hk : keep c = true
    · rw [List.filter_cons_of_pos hk, isWellFormed_cons_plain hc]
      exact ih hs
    · rw [List.filter_cons_of_neg hk]
      exact ih hs

theorem wellFormed_take {s : QString} (h : s.WellFormed) (n : Nat) :
    WellFormed (s.take n) ↔ ∀ c ∈ (s.take n).getLast?, isHighSurrogate c = false := by
  unfold WellFormed at *
  fun_induction isWellFormed s generalizing n with
  | case1 => simp [isWellFormed]
  | case2 c =>
    cases n with
    | zero => simp [isWellFormed]
    | succ n =>
      have hc := Bool.and_eq_true_iff.1 h
      simp only [List.take_succ_cons, List.take_nil, isWellFormed]
      simp_all
  | case3 c d s hp ih =>
    obtain ⟨hc, hd⟩ := Bool.and_eq_true_iff.1 hp
    cases n with
    | zero => simp [isWellFormed]
    | succ n =>
      cases n with
      | zero => simp [isWellFormed, hc]
      | succ n =>
        have hrest := ih h n
        rw [List.take_succ_cons, List.take_succ_cons, isWellFormed, if_pos hp, hrest]
        cases hs : s.take n with
        | nil =>
          have hd' : isHighSurrogate d = false := by
            refine Bool.eq_false_iff.2 fun hhigh => ?_
            rw [not_low_of_high hhigh] at hd
            exact Bool.noConfusion hd
          simp [hd']
        | cons e r => simp
  | case4 c d s hp ih =>
    obtain ⟨hc, hs⟩ := Bool.and_eq_true_iff.1 h
    have hplain : isSurrogate c = false := by simpa [isSurrogate] using hc
    cases n with
    | zero => simp [isWellFormed]
    | succ n =>
      rw [List.take_succ_cons, isWellFormed_cons_plain hplain, ih hs n]
      cases hr : (d :: s).take n with
      | nil => simp_all
      | cons e r => simp

theorem isWellFormed_trim (s : QString) : isWellFormed (Lib.trim isSpace s) = isWellFormed s := by
  have hplain : ∀ c, isSpace c = true → isSurrogate c = false := by
    intro c hc
    refine Bool.eq_false_iff.2 fun hs => ?_
    rw [isSpace_plain hs] at hc
    exact Bool.noConfusion hc
  have hback := isWellFormed_append_plain (Lib.trim isSpace s)
    (b := (s.dropWhile isSpace).rtakeWhile isSpace) fun c hc =>
      hplain c (List.mem_rtakeWhile_imp hc)
  have hfront := isWellFormed_plain_append (a := s.takeWhile isSpace) (fun c hc =>
    hplain c (List.mem_takeWhile_imp hc)) (s.dropWhile isSpace)
  rw [List.takeWhile_append_dropWhile] at hfront
  rw [hfront, ← hback, Lib.trim, List.rdropWhile_append_rtakeWhile]

/-! ## Bytes -/

/-- Nothing at the front of the second string is the partner of what the first ends in. -/
theorem toUtf8_append (s : QString) {t : QString} (h : ∀ c ∈ t.head?, isLowSurrogate c = false) :
    toUtf8 (s ++ t) = toUtf8 s ++ toUtf8 t := by
  fun_induction toUtf8 s with
  | case1 => rfl
  | case2 c =>
    cases t with
    | nil => simp [toUtf8]
    | cons d t =>
      have hd : isLowSurrogate d = false := h d (by simp)
      simp [toUtf8, hd]
  | case3 c d s hp ih =>
    rw [List.cons_append, List.cons_append, toUtf8, if_pos hp, ih, List.append_assoc]
  | case4 c d s hp ih =>
    rw [List.cons_append] at ih
    rw [List.cons_append, List.cons_append, toUtf8, if_neg hp, ih, List.append_assoc]

theorem not_surrogate_of_ascii {c : QChar} (h : c.toNat < 0x80) : isSurrogate c = false := by
  simp only [isSurrogate, isHighSurrogate, isLowSurrogate, Bool.or_eq_false_iff,
    Bool.and_eq_false_iff, decide_eq_false_iff_not, UInt16.le_iff_toNat_le, UInt16.reduceToNat]
  omega

theorem length_unitBytes_ascii {c : QChar} (h : c.toNat < 0x80) : (unitBytes c).length = 1 := by
  have hc : (isHighSurrogate c || isLowSurrogate c) = false := not_surrogate_of_ascii h
  simp [unitBytes, hc, utf8Bytes, h]

theorem length_toUtf8_ascii {s : QString} (h : ∀ c ∈ s, c.toNat < 0x80) :
    (toUtf8 s).length = s.length := by
  induction s with
  | nil => rfl
  | cons c s ih =>
    have hseam : ∀ d ∈ s.head?, isLowSurrogate d = false := by
      intro d hd
      have hmem : d ∈ s := List.mem_of_head? hd
      exact (Bool.or_eq_false_iff.1 (not_surrogate_of_ascii (h d (by simp [hmem])))).2
    have happ := toUtf8_append [c] hseam
    rw [List.singleton_append] at happ
    rw [happ, List.length_append, ih fun d hd => h d (by simp [hd])]
    have hunit : (toUtf8 [c]).length = 1 := length_unitBytes_ascii (h c (by simp))
    rw [hunit, List.length_cons]
    omega

/-- Putting ASCII in the place of ASCII takes as many bytes as before. -/
theorem length_toUtf8_map {f : QChar → QChar}
    (hf : ∀ c, f c = c ∨ c.toNat < 0x80 ∧ (f c).toNat < 0x80) (s : QString) :
    (toUtf8 (s.map f)).length = (toUtf8 s).length := by
  have hplain : ∀ c, isHighSurrogate (f c) = isHighSurrogate c ∧
      isLowSurrogate (f c) = isLowSurrogate c ∧ (unitBytes (f c)).length = (unitBytes c).length := by
    intro c
    rcases hf c with heq | ⟨hc, hfc⟩
    · simp [heq]
    · have h := Bool.or_eq_false_iff.1 (not_surrogate_of_ascii hc)
      have h' := Bool.or_eq_false_iff.1 (not_surrogate_of_ascii hfc)
      simp [h, h', length_unitBytes_ascii hc, length_unitBytes_ascii hfc]
  have hsame : ∀ c, isSurrogate c = true → f c = c := by
    intro c hc
    refine (hf c).resolve_right fun hascii => ?_
    rw [not_surrogate_of_ascii hascii.1] at hc
    exact Bool.noConfusion hc
  fun_induction toUtf8 s with
  | case1 => rfl
  | case2 c => exact (hplain c).2.2
  | case3 c d s hp ih =>
    obtain ⟨hc, hd⟩ := Bool.and_eq_true_iff.1 hp
    have hfc := hsame c (by simp [isSurrogate, hc])
    have hfd := hsame d (by simp [isSurrogate, hd])
    rw [List.map_cons, List.map_cons, hfc, hfd, toUtf8, if_pos hp, List.length_append, ih,
      List.length_append]
  | case4 c d s hp ih =>
    rw [List.map_cons] at ih
    rw [List.map_cons, List.map_cons, toUtf8, (hplain c).1, (hplain d).2.1, if_neg hp,
      List.length_append, ih, (hplain c).2.2, List.length_append]

end LocalSend.QString
