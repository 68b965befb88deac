import LocalSend.Lib.Search
import Mathlib.Algebra.Ring.Int.Defs
import Mathlib.Algebra.Ring.Nat

/-!
# Byte arrays

`QByteArray` and the functions of it the program calls. A position Qt reports as `-1` is `none`.
`toLongLong` follows the documented parse of a whole array: white space in front, one sign, for
base 16 an optional `0x`, then digits to the end; no digit, a trailing character or a value outside
64 bits is a failure (`none`, Qt's `ok == false`).
-/

set_option autoImplicit false

namespace LocalSend

abbrev QByteArray := List UInt8

/-- The bytes of an ASCII literal. -/
def ascii (s : String) : QByteArray := s.toList.map fun c => UInt8.ofNat c.toNat

def crlf : QByteArray := [13, 10]

namespace QByteArray

/-- `isspace` of the C locale. -/
def isSpace (b : UInt8) : Bool := b == 32 || (9 ≤ b && b ≤ 13)

def trimmed (s : QByteArray) : QByteArray :=
  ((s.dropWhile isSpace).reverse.dropWhile isSpace).reverse

/-- Lower case of a byte read as Latin-1. -/
def lowerByte (b : UInt8) : UInt8 :=
  if (65 ≤ b && b ≤ 90) || (192 ≤ b && b ≤ 222 && b != 215) then b + 32 else b

def toLower (s : QByteArray) : QByteArray := s.map lowerByte

def contains (s part : QByteArray) : Bool := (Lib.indexOf part s).isSome

def indexOfByte (s : QByteArray) (b : UInt8) : Option Nat := s.findIdx? (· == b)

/-- The value of a digit, decimal or a letter of either case. -/
def digitValue (b : UInt8) : Option Nat :=
  if 48 ≤ b && b ≤ 57 then some (b.toNat - 48)
  else if 97 ≤ b && b ≤ 122 then some (b.toNat - 87)
  else if 65 ≤ b && b ≤ 90 then some (b.toNat - 55)
  else none

def isDigit (base : Nat) (b : UInt8) : Bool :=
  match digitValue b with
  | some v => v < base
  | none => false

/-- The number a row of digits spells, continuing from `acc`. -/
def digitsValue (base : Nat) (acc : Nat) : QByteArray → Nat
  | [] => acc
  | b :: s => digitsValue base (acc * base + (digitValue b).getD 0) s

def dropHexPrefix : QByteArray → QByteArray
  | 48 :: 120 :: s => s
  | 48 :: 88 :: s => s
  | s => s

/-- The magnitude of a number, its sign and prefix already read. -/
def toMagnitude (base : Nat) (s : QByteArray) : Option Nat :=
  let digits := if base = 16 then dropHexPrefix s else s
  if digits ≠ [] ∧ digits.all (isDigit base) then some (digitsValue base 0 digits) else none

def toLongLong (base : Nat) (s : QByteArray) : Option Int :=
  match (s.takeWhile (· != 0)).dropWhile isSpace with
  | 45 :: rest => (toMagnitude base rest).bind fun n => if n ≤ 2 ^ 63 then some (-(n : Int)) else none
  | 43 :: rest => (toMagnitude base rest).bind fun n => if n < 2 ^ 63 then some (n : Int) else none
  | rest => (toMagnitude base rest).bind fun n => if n < 2 ^ 63 then some (n : Int) else none

def hexDigit (n : Nat) : UInt8 := if n < 10 then UInt8.ofNat (48 + n) else UInt8.ofNat (87 + n)

/-- Two lower-case hex digits for each byte. -/
def toHex (s : QByteArray) : QByteArray :=
  s.flatMap fun b => [hexDigit (b.toNat / 16), hexDigit (b.toNat % 16)]

def number (n : Nat) : QByteArray := (Nat.toDigits 10 n).map fun c => UInt8.ofNat c.toNat

end QByteArray

end LocalSend
