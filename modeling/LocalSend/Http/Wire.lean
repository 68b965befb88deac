import LocalSend.Http.Connection
import Mathlib.Data.List.TakeWhile

/-!
# The wire format of a chunked body

What a peer may send: `SizeLine n` is a line that spells the size `n`, a `Chunk` never is empty,
and a `ChunkedBody` is any list of chunks, the terminating size line and the trailer lines. Each
carries what makes it well formed, so `ChunkedBody.bytes` is the encoding of `ChunkedBody.payload`
and nothing has to be assumed of it. This is the format as RFC 7230 has it, not the decoder's view.
-/

set_option autoImplicit false

namespace LocalSend.Wire

open Lib (Closes)

/-- A size line for `n`: hex digits of either case, leading zeros, an extension after a semicolon. -/
structure SizeLine (n : Nat) where
  digits : QByteArray
  extension : QByteArray
  digits_ne : digits ≠ []
  digits_hex : digits.all (QByteArray.isDigit 16) = true
  digits_value : QByteArray.digitsValue 16 0 digits = n
  extension_semicolon : extension = [] ∨ extension.head? = some 59
  closes : Closes crlf (digits ++ extension)
  short : (digits ++ extension).length < MaxHeadSize

def SizeLine.bytes {n : Nat} (l : SizeLine n) : QByteArray := l.digits ++ l.extension

structure Chunk where
  data : QByteArray
  nonempty : data ≠ []
  line : SizeLine data.length

def Chunk.bytes (c : Chunk) : QByteArray := c.line.bytes ++ crlf ++ (c.data ++ crlf)

structure Trailer where
  line : QByteArray
  nonempty : line ≠ []
  closes : Closes crlf line

def Trailer.bytes (t : Trailer) : QByteArray := t.line ++ crlf

structure ChunkedBody where
  chunks : List Chunk
  last : SizeLine 0
  trailers : List Trailer

namespace ChunkedBody

def payload (b : ChunkedBody) : QByteArray := b.chunks.flatMap Chunk.data

def trailerBytes (b : ChunkedBody) : QByteArray := b.trailers.flatMap Trailer.bytes

def bytes (b : ChunkedBody) : QByteArray :=
  b.chunks.flatMap Chunk.bytes ++ (b.last.bytes ++ crlf ++ (b.trailerBytes ++ crlf))

end ChunkedBody

/-- A line without a carriage return ends at the first line end. -/
theorem closes_crlf {a : QByteArray} (h : 13 ∉ a) : Closes crlf a := by
  refine Lib.indexOf_eq_some.2 ⟨by simp, by rw [List.drop_left], fun m hm hp => h ?_⟩
  rw [List.drop_append_of_le_length (Nat.le_of_lt hm), List.drop_eq_getElem_cons hm] at hp
  have : 13 = a[m] := by
    have := List.cons_prefix_cons.1 hp
    exact this.1
  exact this ▸ List.getElem_mem hm

/-! ## Reading a size line back -/

theorem digit_ne_semicolon {b : UInt8} (h : QByteArray.isDigit 16 b = true) : b ≠ 59 := by
  rintro rfl
  exact absurd h (by decide)

theorem digit_not_space {b : UInt8} (h : QByteArray.isDigit 16 b = true) :
    QByteArray.isSpace b = false := by
  have all : ∀ n : Fin 256, QByteArray.isDigit 16 (UInt8.ofNat n) = true →
      QByteArray.isSpace (UInt8.ofNat n) = false := by decide +kernel
  have := all ⟨b.toNat, b.toNat_lt⟩
  simp only [UInt8.ofNat_toNat] at this
  exact this h

theorem digit_ne_sign {b : UInt8} (h : QByteArray.isDigit 16 b = true) : b ≠ 45 ∧ b ≠ 43 ∧ b ≠ 0 := by
  refine ⟨?_, ?_, ?_⟩ <;> rintro rfl <;> exact absurd h (by decide)

theorem digit_ne_x {b : UInt8} (h : QByteArray.isDigit 16 b = true) : b ≠ 120 ∧ b ≠ 88 := by
  refine ⟨?_, ?_⟩ <;> rintro rfl <;> exact absurd h (by decide)

variable {digits : QByteArray}

theorem trimmed_digits (h : digits.all (QByteArray.isDigit 16) = true) :
    QByteArray.trimmed digits = digits := by
  have keep : ∀ l : QByteArray, l.all (QByteArray.isDigit 16) = true →
      l.dropWhile QByteArray.isSpace = l := by
    intro l hl
    cases l with
    | nil => rfl
    | cons b l =>
      rw [List.all_cons, Bool.and_eq_true] at hl
      rw [List.dropWhile_cons, digit_not_space hl.1]
      rfl
  rw [QByteArray.trimmed, keep digits h, keep _ (by rw [List.all_reverse]; exact h),
    List.reverse_reverse]

theorem dropHexPrefix_digits (h : digits.all (QByteArray.isDigit 16) = true) :
    QByteArray.dropHexPrefix digits = digits := by
  unfold QByteArray.dropHexPrefix
  split
  · simp only [List.all_cons, Bool.and_eq_true] at h
    exact absurd rfl (digit_ne_x h.2.1).1
  · simp only [List.all_cons, Bool.and_eq_true] at h
    exact absurd rfl (digit_ne_x h.2.1).2
  · rfl

/-- Digits have neither blanks nor a sign before them. -/
theorem toLongLong_plain {base : Nat} (hne : digits ≠ [])
    (h : ∀ b ∈ digits, QByteArray.isDigit 16 b = true) :
    QByteArray.toLongLong base digits = (QByteArray.toMagnitude base digits).bind fun n =>
      if n < 2 ^ 63 then some (n : Int) else none := by
  have hzero : digits.takeWhile (· != 0) = digits := by
    rw [List.takeWhile_eq_self_iff]
    intro b hb
    simpa using (digit_ne_sign (h b hb)).2.2
  unfold QByteArray.toLongLong
  rw [hzero]
  cases digits with
  | nil => exact absurd rfl hne
  | cons b l =>
    have hb := h b List.mem_cons_self
    rw [List.dropWhile_cons, digit_not_space hb]
    simp only [Bool.false_eq_true, if_false]
    split
    · rename_i heq
      cases heq
      exact absurd rfl (digit_ne_sign hb).1
    · rename_i heq
      cases heq
      exact absurd rfl (digit_ne_sign hb).2.1
    · rfl

theorem toLongLong_digits (hne : digits ≠ []) (h : digits.all (QByteArray.isDigit 16) = true)
    (hlt : QByteArray.digitsValue 16 0 digits < 2 ^ 63) :
    QByteArray.toLongLong 16 digits = some (QByteArray.digitsValue 16 0 digits : Int) := by
  have hmag : QByteArray.toMagnitude 16 digits = some (QByteArray.digitsValue 16 0 digits) := by
    rw [QByteArray.toMagnitude, if_pos rfl, dropHexPrefix_digits h, if_pos ⟨hne, h⟩]
  rw [toLongLong_plain hne (List.all_eq_true.1 h), hmag, Option.bind_some, if_pos hlt]

theorem digit_hex {b : UInt8} (h : QByteArray.isDigit 10 b = true) :
    QByteArray.isDigit 16 b = true := by
  unfold QByteArray.isDigit at h ⊢
  split at h
  · simp only [decide_eq_true_eq] at h ⊢
    omega
  · cases h

theorem toLongLong_decimal (hne : digits ≠ []) (h : digits.all (QByteArray.isDigit 10) = true)
    (hlt : QByteArray.digitsValue 10 0 digits < 2 ^ 63) :
    QByteArray.toLongLong 10 digits = some (QByteArray.digitsValue 10 0 digits : Int) := by
  have hhex : ∀ b ∈ digits, QByteArray.isDigit 16 b = true :=
    fun b hb => digit_hex (List.all_eq_true.1 h b hb)
  have hmag : QByteArray.toMagnitude 10 digits = some (QByteArray.digitsValue 10 0 digits) := by
    exact if_pos ⟨hne, h⟩
  rw [toLongLong_plain hne hhex, hmag, Option.bind_some, if_pos hlt]

/-- What the decoder makes of hex digits and an extension is the number the digits spell. -/
theorem sizeOfLine_digits {extension : QByteArray} (hne : digits ≠ [])
    (h : digits.all (QByteArray.isDigit 16) = true)
    (hext : extension = [] ∨ extension.head? = some 59)
    (hlt : QByteArray.digitsValue 16 0 digits < 2 ^ 63) :
    Host.sizeOfLine (digits ++ extension) = some (QByteArray.digitsValue 16 0 digits : Int) := by
  have hd : ∀ b ∈ digits, (b == 59) = false := fun b hb => by
    simpa using digit_ne_semicolon (List.all_eq_true.1 h b hb)
  have hfind : QByteArray.indexOfByte (digits ++ extension) 59 =
      (QByteArray.indexOfByte extension 59).map (· + digits.length) := by
    unfold QByteArray.indexOfByte
    rw [List.findIdx?_append, List.findIdx?_eq_none_iff.2 hd, Option.none_or]
  unfold Host.sizeOfLine
  rw [hfind]
  rcases extension with - | ⟨b, ext⟩
  · rw [List.append_nil]
    exact (congrArg _ (trimmed_digits h)).trans (toLongLong_digits hne h hlt)
  · have hb : b = 59 := by simpa using hext
    simp only [hb, QByteArray.indexOfByte, List.findIdx?_cons, beq_self_eq_true, if_true,
      Option.map_some, Nat.zero_add, List.take_left']
    rw [trimmed_digits h, toLongLong_digits hne h hlt]

/-- What the decoder makes of a size line is the size it spells. -/
theorem SizeLine.parse {n : Nat} (l : SizeLine n) (hn : n < 2 ^ 63) :
    Host.sizeOfLine l.bytes = some (n : Int) := by
  have h := sizeOfLine_digits l.digits_ne l.digits_hex l.extension_semicolon
    (by rw [l.digits_value]; exact hn)
  rwa [l.digits_value] at h

end LocalSend.Wire
