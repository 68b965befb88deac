import LocalSend.Qt.Text

/-!
# UTF-8 of well-formed strings

A well-formed string is a sequence of code points. `nextPoint` reads one code point back from its
bytes, so two well-formed strings with the same UTF-8 are the same (`toUtf8_inj`).
-/

set_option autoImplicit false

namespace LocalSend.QString

/-- No surrogate stands without its partner. -/
def isWellFormed : QString → Bool
  | [] => true
  | [c] => !isHighSurrogate c && !isLowSurrogate c
  | c :: d :: s =>
    if isHighSurrogate c && isLowSurrogate d then isWellFormed s
    else !isHighSurrogate c && !isLowSurrogate c && isWellFormed (d :: s)

abbrev WellFormed (s : QString) : Prop := s.isWellFormed = true

/-! ## One code point -/

/-- The first code point and what follows it. -/
def nextPoint : QByteArray → Option (Nat × QByteArray)
  | [] => none
  | a :: s =>
    if a.toNat < 0x80 then some (a.toNat, s)
    else match s with
    | [] => none
    | b :: s =>
      if a.toNat < 0xE0 then some ((a.toNat - 0xC0) * 64 + (b.toNat - 0x80), s)
      else match s with
      | [] => none
      | c :: s =>
        if a.toNat < 0xF0 then
          some ((a.toNat - 0xE0) * 4096 + (b.toNat - 0x80) * 64 + (c.toNat - 0x80), s)
        else match s with
        | [] => none
        | d :: s => some ((a.toNat - 0xF0) * 262144 + (b.toNat - 0x80) * 4096 +
            (c.toNat - 0x80) * 64 + (d.toNat - 0x80), s)

theorem nextPoint_utf8Bytes {n : Nat} (hn : n < 0x110000) (rest : QByteArray) :
    nextPoint (utf8Bytes n ++ rest) = some (n, rest) := by
  have small : ∀ k < 256, (UInt8.ofNat k).toNat = k := fun k hk => by
    rw [UInt8.toNat_ofNat']
    omega
  unfold utf8Bytes
  split
  · have ha := small n (by omega)
    simp only [List.cons_append, List.nil_append, nextPoint, ha]
    rw [if_pos (by omega)]
  · split
    · have ha := small (0xC0 + n / 64) (by omega)
      have hb := small (0x80 + n % 64) (by omega)
      simp only [List.cons_append, List.nil_append, nextPoint, ha, hb]
      rw [if_neg (by omega), if_pos (by omega)]
      refine congrArg some (Prod.ext ?_ rfl)
      simp only
      omega
    · split
      · have ha := small (0xE0 + n / 4096) (by omega)
        have hb := small (0x80 + n / 64 % 64) (by omega)
        have hc := small (0x80 + n % 64) (by omega)
        simp only [List.cons_append, List.nil_append, nextPoint, ha, hb, hc]
        rw [if_neg (by omega), if_neg (by omega), if_pos (by omega)]
        refine congrArg some (Prod.ext ?_ rfl)
        simp only
        omega
      · have ha := small (0xF0 + n / 262144) (by omega)
        have hb := small (0x80 + n / 4096 % 64) (by omega)
        have hc := small (0x80 + n / 64 % 64) (by omega)
        have hd := small (0x80 + n % 64) (by omega)
        simp only [List.cons_append, List.nil_append, nextPoint, ha, hb, hc, hd]
        rw [if_neg (by omega), if_neg (by omega), if_neg (by omega)]
        refine congrArg some (Prod.ext ?_ rfl)
        simp only
        omega

theorem utf8Bytes_append_inj {n m : Nat} (hn : n < 0x110000) (hm : m < 0x110000)
    {rest rest' : QByteArray} (h : utf8Bytes n ++ rest = utf8Bytes m ++ rest') :
    n = m ∧ rest = rest' := by
  have hp := congrArg nextPoint h
  rw [nextPoint_utf8Bytes hn, nextPoint_utf8Bytes hm] at hp
  simpa using hp

theorem utf8Bytes_ne_nil (n : Nat) : utf8Bytes n ≠ [] := by
  unfold utf8Bytes
  split
  · simp
  · split
    · simp
    · split <;> simp

/-! ## A string as code points -/

/-- The code units of a code point. -/
def units (n : Nat) : QString :=
  if n < 0x10000 then [UInt16.ofNat n]
  else [UInt16.ofNat (0xD800 + (n - 0x10000) / 1024), UInt16.ofNat (0xDC00 + (n - 0x10000) % 1024)]

theorem units_plain (c : QChar) : units c.toNat = [c] := by
  have hc := c.toNat_lt
  unfold units
  rw [if_pos (by omega), UInt16.ofNat_toNat]

theorem units_pair {c d : QChar} (hc : isHighSurrogate c = true) (hd : isLowSurrogate d = true) :
    0x10000 + (c.toNat - 0xD800) * 1024 + (d.toNat - 0xDC00) < 0x110000 ∧
      units (0x10000 + (c.toNat - 0xD800) * 1024 + (d.toNat - 0xDC00)) = [c, d] := by
  simp only [isHighSurrogate, isLowSurrogate, Bool.and_eq_true, decide_eq_true_eq,
    UInt16.le_iff_toNat_le, UInt16.reduceToNat] at hc hd
  refine ⟨by omega, ?_⟩
  unfold units
  rw [if_neg (by omega)]
  have h1 : 0xD800 + (0x10000 + (c.toNat - 0xD800) * 1024 + (d.toNat - 0xDC00) - 0x10000) / 1024 =
      c.toNat := by omega
  have h2 : 0xDC00 + (0x10000 + (c.toNat - 0xD800) * 1024 + (d.toNat - 0xDC00) - 0x10000) % 1024 =
      d.toNat := by omega
  rw [h1, h2, UInt16.ofNat_toNat, UInt16.ofNat_toNat]

/-- The first code point of a well-formed string. -/
theorem WellFormed.uncons {s : QString} (h : s.WellFormed) (hs : s ≠ []) : ∃ n rest,
    n < 0x110000 ∧ rest.WellFormed ∧ s = units n ++ rest ∧
      toUtf8 s = utf8Bytes n ++ toUtf8 rest := by
  cases s with
  | nil => exact absurd rfl hs
  | cons c s =>
    have hc := c.toNat_lt
    cases s with
    | nil =>
      have hplain : (isHighSurrogate c || isLowSurrogate c) = false := by
        simpa [WellFormed, isWellFormed] using h
      refine ⟨c.toNat, [], by omega, rfl, ?_, ?_⟩
      · rw [units_plain, List.append_nil]
      · simp [toUtf8, unitBytes, hplain]
    | cons d s =>
      unfold WellFormed isWellFormed at h
      cases hp : isHighSurrogate c && isLowSurrogate d with
      | true =>
        rw [hp, if_pos rfl] at h
        obtain ⟨hhigh, hlow⟩ := Bool.and_eq_true_iff.1 hp
        obtain ⟨hlt, hunits⟩ := units_pair hhigh hlow
        refine ⟨_, s, hlt, h, ?_, ?_⟩
        · rw [hunits]
          rfl
        · rw [toUtf8, if_pos hp]
      | false =>
        rw [hp, if_neg Bool.false_ne_true, Bool.and_eq_true_iff] at h
        have hplain : (isHighSurrogate c || isLowSurrogate c) = false := by simpa using h.1
        refine ⟨c.toNat, d :: s, by omega, h.2, ?_, ?_⟩
        · rw [units_plain]
          rfl
        · rw [toUtf8, if_neg (ne_true_of_eq_false hp), unitBytes, hplain,
            if_neg Bool.false_ne_true]

theorem toUtf8_inj {s t : QString} (hs : s.WellFormed) (ht : t.WellFormed)
    (h : toUtf8 s = toUtf8 t) : s = t := by
  have hnil : ∀ {u : QString}, u.WellFormed → toUtf8 u = [] → u = [] := by
    intro u hu hempty
    refine Classical.byContradiction fun hne => ?_
    obtain ⟨n, rest, -, -, -, hutf⟩ := hu.uncons hne
    rw [hutf] at hempty
    exact utf8Bytes_ne_nil n (List.append_eq_nil_iff.1 hempty).1
  induction hlen : s.length using Nat.strong_induction_on generalizing s t with
  | _ len ih =>
    by_cases hse : s = []
    · rw [hse] at h ⊢
      exact (hnil ht h.symm).symm
    · by_cases hte : t = []
      · rw [hte] at h
        exact absurd (hnil hs h) hse
      · obtain ⟨n, rest, hn, hrest, hsn, hsu⟩ := hs.uncons hse
        obtain ⟨m, rest', hm, hrest', htm, htu⟩ := ht.uncons hte
        rw [hsu, htu] at h
        obtain ⟨hnm, htail⟩ := utf8Bytes_append_inj hn hm h
        have hshort : rest.length < len := by
          have hpos : 0 < (units n).length := by
            unfold units
            split <;> simp
          rw [← hlen, hsn, List.length_append]
          omega
        rw [hsn, htm, hnm, ih rest.length hshort hrest hrest' htail rfl]

end LocalSend.QString
