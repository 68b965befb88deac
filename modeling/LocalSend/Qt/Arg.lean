import LocalSend.Qt.Text

/-!
# Numbers and place markers in strings

`QString::number`, `QString::toInt` and `QString::arg`. The last replaces the markers of the lowest
number, which need not be one of the template: a text that was put in before may look like one.
-/

set_option autoImplicit false

namespace LocalSend.QString

/-! ## Decimal numbers -/

def isDigit (c : QChar) : Bool := 48 ≤ c && c ≤ 57

/-- The number a row of decimal digits spells. -/
def digitsValue (s : QString) : Nat := s.foldl (fun n c => 10 * n + (c.toNat - 48)) 0

/-- A number without its sign. -/
def magnitude (s : QString) : Option Nat :=
  if s ≠ [] ∧ s.all isDigit then some (digitsValue s) else none

/-- `toInt(&ok)` in base 10, `none` where `ok` is false. -/
def toInt (s : QString) : Option Int :=
  match trimmed s with
  | 45 :: rest => (magnitude rest).bind fun n => if n ≤ 2 ^ 31 then some (-(n : Int)) else none
  | 43 :: rest => (magnitude rest).bind fun n => if n < 2 ^ 31 then some (n : Int) else none
  | rest => (magnitude rest).bind fun n => if n < 2 ^ 31 then some (n : Int) else none

theorem isDigit_iff {c : QChar} : isDigit c = true ↔ 48 ≤ c.toNat ∧ c.toNat ≤ 57 := by
  simp [isDigit, UInt16.le_iff_toNat_le]

theorem number_eq (n : Nat) :
    number n = (Nat.toDigits 10 n).map fun c => (UInt8.ofNat c.toNat).toUInt16 := by
  simp [number, fromLatin1, QByteArray.number]

theorem toDigits_bounds {n : Nat} {c : Char} (h : c ∈ Nat.toDigits 10 n) :
    48 ≤ c.toNat ∧ c.toNat ≤ 57 := by
  have hdigit := Nat.isDigit_of_mem_toDigits (by decide) (by decide) h
  simp only [Char.isDigit, Bool.and_eq_true, decide_eq_true_eq] at hdigit
  exact ⟨hdigit.1, hdigit.2⟩

theorem number_digits {n : Nat} {c : QChar} (h : c ∈ number n) : isDigit c = true := by
  rw [number_eq] at h
  obtain ⟨d, hd, rfl⟩ := List.mem_map.1 h
  have hbounds := toDigits_bounds hd
  rw [isDigit_iff, UInt8.toNat_toUInt16, UInt8.toNat_ofNat']
  omega

theorem number_ne_nil (n : Nat) : number n ≠ [] := by
  rw [number_eq]
  simp

theorem number_plain {n : Nat} {c : QChar} (h : isDigit c = false) : c ∉ number n := by
  intro hmem
  rw [number_digits hmem] at h
  exact Bool.noConfusion h

theorem digitsValue_number (n : Nat) : digitsValue (number n) = n := by
  have hfold : ∀ (l : List Char) (k : Nat), (∀ c ∈ l, 48 ≤ c.toNat ∧ c.toNat ≤ 57) →
      (l.map fun c => (UInt8.ofNat c.toNat).toUInt16).foldl (fun n c => 10 * n + (c.toNat - 48)) k =
        Nat.ofDigitChars 10 l k := by
    intro l
    induction l with
    | nil => simp
    | cons c l ih =>
      intro k hl
      have hc := hl c (by simp)
      rw [List.map_cons, List.foldl_cons, ih _ fun d hd => hl d (by simp [hd]),
        Nat.ofDigitChars_cons, UInt8.toNat_toUInt16, UInt8.toNat_ofNat',
        Nat.mod_eq_of_lt (by omega)]
      rfl
  rw [digitsValue, number_eq, hfold _ _ fun c => toDigits_bounds]
  exact Nat.ofDigitChars_ten_toDigits

theorem magnitude_number (n : Nat) : magnitude (number n) = some n := by
  unfold magnitude
  rw [if_pos ⟨number_ne_nil n, List.all_eq_true.2 fun c => number_digits⟩, digitsValue_number]

theorem isDigit_not_space {c : QChar} (h : isDigit c = true) : isSpace c = false := by
  rw [isDigit_iff] at h
  simp only [isSpace, Bool.or_eq_false_iff, Bool.and_eq_false_iff, beq_eq_false_iff_ne,
    decide_eq_false_iff_not, ne_eq, UInt16.le_iff_toNat_le, ← UInt16.toNat_inj,
    UInt16.reduceToNat]
  omega

/-! ## Place markers -/

/-- One or two digits: their value, and how many. -/
def markerDigits : QString → Option (Nat × Nat)
  | [] => none
  | [c] => if isDigit c then some (digitsValue [c], 1) else none
  | c :: d :: _ =>
    if isDigit c then
      if isDigit d then some (digitsValue [c, d], 2) else some (digitsValue [c], 1)
    else none

/-- A marker at the front, `%1` or `%L1`: its number, and how many units it takes. -/
def marker : QString → Option (Nat × Nat)
  | 37 :: 76 :: s => (markerDigits s).map fun (n, k) => (n, k + 2)
  | 37 :: s => (markerDigits s).map fun (n, k) => (n, k + 1)
  | _ => none

/-- The numbers of the markers, from the unit after the next `skip`. -/
def markers : QString → Nat → List Nat
  | [], _ => []
  | _ :: s, skip + 1 => markers s skip
  | c :: s, 0 =>
    match marker (c :: s) with
    | some (n, k) => n :: markers s (k - 1)
    | none => markers s 0

/-- The markers numbered `n` are replaced; the next `skip` units have been dealt with. -/
def fill (n : Nat) (a : QString) : QString → Nat → QString
  | [], _ => []
  | _ :: s, skip + 1 => fill n a s skip
  | c :: s, 0 =>
    match marker (c :: s) with
    | some (m, k) => (if m = n then a else (c :: s).take k) ++ fill n a s (k - 1)
    | none => c :: fill n a s 0

def arg (s a : QString) : QString :=
  match (markers s 0).min? with
  | none => s
  | some n => fill n a s 0

theorem arg_of_markers {s : QString} {n : Nat} {ns : List Nat} (h : markers s 0 = ns)
    (hmin : ns.min? = some n) (a : QString) : arg s a = fill n a s 0 := by
  unfold arg
  rw [h, hmin]

theorem marker_plain {c : QChar} (h : c ≠ 37) (s : QString) : marker (c :: s) = none := by
  unfold marker
  split
  · simp_all
  · simp_all
  · rfl

theorem markers_plain {t : QString} (h : 37 ∉ t) (s : QString) :
    markers (t ++ s) 0 = markers s 0 := by
  induction t with
  | nil => rfl
  | cons c t ih =>
    rw [List.cons_append, markers, marker_plain fun hc => h (by simp [hc])]
    exact ih fun hmem => h (by simp [hmem])

theorem fill_plain (n : Nat) (a : QString) {t : QString} (h : 37 ∉ t) (s : QString) :
    fill n a (t ++ s) 0 = t ++ fill n a s 0 := by
  induction t with
  | nil => rfl
  | cons c t ih =>
    rw [List.cons_append, fill, marker_plain fun hc => h (by simp [hc])]
    exact congrArg (c :: ·) (ih fun hmem => h (by simp [hmem]))

/-- What stands before the first marker stays. -/
theorem arg_plain {t : QString} (h : 37 ∉ t) (s a : QString) : arg (t ++ s) a = t ++ arg s a := by
  unfold arg
  rw [markers_plain h]
  split
  · rfl
  · exact fill_plain _ a h s

end LocalSend.QString
