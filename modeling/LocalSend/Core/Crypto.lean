import LocalSend.Core.Protocol

/-!
# Comparisons, digests and random tokens

`Crypto::equals` compares the UTF-8 spellings of two strings. A token is hex digits, and no other
string has the UTF-8 spelling of one (`equals_token`), so for tokens it is equality.
-/

set_option autoImplicit false

namespace LocalSend.Crypto

def equals (left right : QString) : Bool := QString.toUtf8 left == QString.toUtf8 right

section
variable [Qt]

def equalsFold (left right : QString) : Bool := equals (Qt.toUpper left) (Qt.toUpper right)

/-- SHA-256 of `data` as upper-case hex. -/
def sha256Hex (data : QByteArray) : QString :=
  (QString.fromLatin1 (QByteArray.toHex (Qt.sha256 data))).map fun c =>
    if 97 ≤ c && c ≤ 122 then c - 32 else c

/-- Empty when the length or the iteration count is not positive. -/
def deriveKey (secret : QString) (salt : QByteArray) (iterations length : Nat) : QByteArray :=
  if length = 0 ∨ iterations = 0 then []
  else Qt.pbkdf2 (QString.toUtf8 secret) salt iterations length

end

/-- The system's random source: what each successive request for bytes is answered with. -/
abbrev Random := Nat → Option (Nat → UInt8)

/-- `randomBytes(count)` as the `n`-th request: empty when the source does not answer. -/
def randomBytes (source : Random) (n count : Nat) : QByteArray :=
  match source n with
  | some bytes => (List.range count).map bytes
  | none => []

def randomHex (source : Random) (n byteCount : Nat) : QString :=
  QString.fromLatin1 (QByteArray.toHex (randomBytes source n byteCount))

/-- `Protocol::generateToken` as the `n`-th request: 192 bits, empty when the source fails. -/
def generateToken (source : Random) (n : Nat) : QString := randomHex source n 24

/-! ## Tokens -/

/-- A character of a hex number. -/
def isHexChar (c : QChar) : Bool := (48 ≤ c && c ≤ 57) || (97 ≤ c && c ≤ 102)

theorem hexDigit_isHexChar : ∀ n < 16, isHexChar (QByteArray.hexDigit n).toUInt16 = true := by
  decide

theorem toHex_isHexChar (s : QByteArray) :
    ∀ c ∈ QString.fromLatin1 (QByteArray.toHex s), isHexChar c = true := by
  intro c hc
  simp only [QString.fromLatin1, QByteArray.toHex, List.mem_map, List.mem_flatMap,
    List.mem_cons, List.not_mem_nil, or_false] at hc
  obtain ⟨_, ⟨b, -, rfl | rfl⟩, rfl⟩ := hc
  · exact hexDigit_isHexChar _ (by have := b.toNat_lt; omega)
  · exact hexDigit_isHexChar _ (Nat.mod_lt _ (by decide))

theorem generateToken_isHexChar (source : Random) (n : Nat) :
    ∀ c ∈ generateToken source n, isHexChar c = true := toHex_isHexChar _

/-- A code point outside ASCII is spelled with a byte outside ASCII. -/
theorem utf8Bytes_high {n : Nat} (h : 0x80 ≤ n) (hn : n < 0x110000) :
    ∃ b ∈ QString.utf8Bytes n, 0x80 ≤ b.toNat := by
  unfold QString.utf8Bytes
  rw [if_neg (by omega)]
  split
  · refine ⟨_, List.mem_cons_self, ?_⟩
    rw [UInt8.toNat_ofNat']
    omega
  · split
    · refine ⟨_, List.mem_cons_self, ?_⟩
      rw [UInt8.toNat_ofNat']
      omega
    · refine ⟨_, List.mem_cons_self, ?_⟩
      rw [UInt8.toNat_ofNat']
      omega

/-- A byte that UTF-8 uses for an ASCII character other than the question mark. -/
def Plain (b : UInt8) : Prop := b.toNat < 0x80 ∧ b ≠ 63

theorem unitBytes_plain {c : QChar} (h : ∀ b ∈ QString.unitBytes c, Plain b) :
    QString.unitBytes c = [c.toUInt8] ∧ c.toNat < 0x80 := by
  unfold QString.unitBytes at h ⊢
  split at h
  · exact absurd rfl (h 63 (by simp)).2
  · rename_i hs
    have hlt : c.toNat < 0x80 := by
      refine Nat.lt_of_not_le fun hge => ?_
      obtain ⟨b, hb, hb'⟩ := utf8Bytes_high hge (by have := c.toNat_lt; omega)
      exact absurd (h b hb).1 (by omega)
    rw [if_neg hs, QString.utf8Bytes, if_pos hlt]
    exact ⟨rfl, hlt⟩

/-- Only ASCII is spelled with plain bytes, one for each character. -/
theorem toUtf8_plain (s : QString) (h : ∀ b ∈ QString.toUtf8 s, Plain b) :
    QString.toUtf8 s = s.map (·.toUInt8) ∧ ∀ c ∈ s, c.toNat < 0x80 := by
  induction s using QString.toUtf8.induct with
  | case1 => exact ⟨rfl, fun c hc => absurd hc List.not_mem_nil⟩
  | case2 c =>
    rw [QString.toUtf8] at h ⊢
    obtain ⟨h1, h2⟩ := unitBytes_plain h
    exact ⟨h1, by simpa using h2⟩
  | case3 c d s hsur ih =>
    rw [QString.toUtf8, if_pos hsur] at h
    simp only [Bool.and_eq_true, QString.isHighSurrogate, QString.isLowSurrogate,
      decide_eq_true_eq, UInt16.le_iff_toNat_le] at hsur
    obtain ⟨⟨hc1, hc2⟩, hd1, hd2⟩ := hsur
    simp only [UInt16.reduceToNat] at hc1 hc2 hd1 hd2
    obtain ⟨b, hb, hb'⟩ := utf8Bytes_high
      (n := 0x10000 + (c.toNat - 0xD800) * 1024 + (d.toNat - 0xDC00)) (by omega) (by omega)
    exact absurd (h b (List.mem_append_left _ hb)).1 (by omega)
  | case4 c d s hsur ih =>
    rw [QString.toUtf8, if_neg hsur] at h ⊢
    obtain ⟨h1, h2⟩ := unitBytes_plain fun b hb => h b (List.mem_append_left _ hb)
    obtain ⟨h3, h4⟩ := ih fun b hb => h b (List.mem_append_right _ hb)
    refine ⟨by rw [h1, h3]; rfl, fun x hx => ?_⟩
    rcases List.mem_cons.1 hx with rfl | hx
    · exact h2
    · exact h4 x hx

/-- An ASCII character other than the question mark. -/
def PlainChar (c : QChar) : Prop := c.toNat < 0x80 ∧ c ≠ 63

theorem plainChar_of_hex {c : QChar} (h : isHexChar c = true) : PlainChar c := by
  simp only [isHexChar, Bool.or_eq_true, Bool.and_eq_true, decide_eq_true_eq,
    UInt16.le_iff_toNat_le, UInt16.reduceToNat] at h
  refine ⟨by omega, ?_⟩
  rintro rfl
  simp at h

theorem unitBytes_of_plain {c : QChar} (h : PlainChar c) :
    QString.isHighSurrogate c = false ∧ QString.unitBytes c = [c.toUInt8] ∧ Plain c.toUInt8 := by
  obtain ⟨hlt, hne⟩ := h
  have hhigh : QString.isHighSurrogate c = false := by
    simp only [QString.isHighSurrogate, Bool.and_eq_false_iff, decide_eq_false_iff_not,
      UInt16.le_iff_toNat_le, UInt16.reduceToNat]
    omega
  have hlow : QString.isLowSurrogate c = false := by
    simp only [QString.isLowSurrogate, Bool.and_eq_false_iff, decide_eq_false_iff_not,
      UInt16.le_iff_toNat_le, UInt16.reduceToNat]
    omega
  refine ⟨hhigh, ?_, ?_, fun he => hne ?_⟩
  · rw [QString.unitBytes, hhigh, hlow, if_neg (by decide), QString.utf8Bytes, if_pos (by omega)]
    rfl
  · rw [UInt16.toNat_toUInt8]
    omega
  · have hnat := congrArg UInt8.toNat he
    rw [UInt16.toNat_toUInt8] at hnat
    simp only [UInt8.reduceToNat] at hnat
    refine UInt16.toNat_inj.1 ?_
    simp only [UInt16.reduceToNat]
    omega

theorem toUtf8_of_plain {t : QString} (h : ∀ c ∈ t, PlainChar c) :
    QString.toUtf8 t = t.map (·.toUInt8) := by
  induction t using QString.toUtf8.induct with
  | case1 => rfl
  | case2 c => exact (unitBytes_of_plain (h c (by simp))).2.1
  | case3 c d s hsur ih =>
    rw [(unitBytes_of_plain (h c (by simp))).1] at hsur
    simp at hsur
  | case4 c d s hsur ih =>
    rw [QString.toUtf8, if_neg hsur, ih fun x hx => h x (List.mem_cons_of_mem _ hx),
      (unitBytes_of_plain (h c (by simp))).2.1]
    rfl

/-- A row of ASCII characters is determined by its bytes. -/
theorem toUInt8_inj {s t : QString} (hs : ∀ c ∈ s, c.toNat < 0x80) (ht : ∀ c ∈ t, c.toNat < 0x80)
    (h : s.map (·.toUInt8) = t.map (·.toUInt8)) : s = t := by
  have back : ∀ u : QString, (∀ c ∈ u, c.toNat < 0x80) →
      (u.map (·.toUInt8)).map (·.toUInt16) = u := by
    intro u hu
    rw [List.map_map]
    refine (List.map_congr_left fun c hc => ?_).trans (List.map_id u)
    have := hu c hc
    exact UInt16.toNat_inj.1 (by
      simp only [Function.comp_apply, UInt8.toNat_toUInt16, UInt16.toNat_toUInt8, id_eq]; omega)
  rw [← back s hs, ← back t ht, h]

/-- Comparing with a plain string is equality of strings. -/
theorem equals_plain {t s : QString} (h : ∀ c ∈ t, PlainChar c) : equals t s = true ↔ t = s := by
  refine ⟨fun he => ?_, fun he => by simp [equals, he]⟩
  have hp : ∀ b ∈ QString.toUtf8 t, Plain b := by
    intro b hb
    rw [toUtf8_of_plain h, List.mem_map] at hb
    obtain ⟨c, hc, rfl⟩ := hb
    exact (unitBytes_of_plain (h c hc)).2.2
  rw [equals, beq_iff_eq] at he
  obtain ⟨h1, h2⟩ := toUtf8_plain s (by rw [← he]; exact hp)
  obtain ⟨h3, h4⟩ := toUtf8_plain t hp
  exact toUInt8_inj h4 h2 (by rw [← h3, he, h1])

/-- Comparing with a token is equality of strings. -/
theorem equals_token {t s : QString} (h : ∀ c ∈ t, isHexChar c = true) :
    equals t s = true ↔ t = s := equals_plain fun c hc => plainChar_of_hex (h c hc)

end LocalSend.Crypto
