import LocalSend.Qt.Bytes

/-!
# Strings

`QString` is a list of UTF-16 code units, as Qt stores it, surrogates and all.
-/

set_option autoImplicit false

namespace LocalSend

abbrev QChar := UInt16

abbrev QString := List QChar

/-- The code units of an ASCII literal. -/
def str (s : String) : QString := s.toList.map fun c => UInt16.ofNat c.toNat

namespace QString

def fromLatin1 (s : QByteArray) : QString := s.map fun b => b.toUInt16

/-- A code unit Qt cannot spell in Latin-1 becomes zero. -/
def toLatin1 (c : QChar) : UInt8 := if c < 256 then c.toUInt8 else 0

def number (n : Nat) : QString := fromLatin1 (QByteArray.number n)

def isHighSurrogate (c : QChar) : Bool := 0xD800 ≤ c && c ≤ 0xDBFF

def isLowSurrogate (c : QChar) : Bool := 0xDC00 ≤ c && c ≤ 0xDFFF

/-- The UTF-8 bytes of a code point. -/
def utf8Bytes (n : Nat) : QByteArray :=
  if n < 0x80 then [UInt8.ofNat n]
  else if n < 0x800 then [UInt8.ofNat (0xC0 + n / 64), UInt8.ofNat (0x80 + n % 64)]
  else if n < 0x10000 then
    [UInt8.ofNat (0xE0 + n / 4096), UInt8.ofNat (0x80 + n / 64 % 64), UInt8.ofNat (0x80 + n % 64)]
  else [UInt8.ofNat (0xF0 + n / 262144), UInt8.ofNat (0x80 + n / 4096 % 64),
    UInt8.ofNat (0x80 + n / 64 % 64), UInt8.ofNat (0x80 + n % 64)]

/-- The bytes of a code unit on its own: a surrogate without its partner is a question mark. -/
def unitBytes (c : QChar) : QByteArray :=
  if isHighSurrogate c || isLowSurrogate c then [63] else utf8Bytes c.toNat

def toUtf8 : QString → QByteArray
  | [] => []
  | [c] => unitBytes c
  | c :: d :: s =>
    if isHighSurrogate c && isLowSurrogate d then
      utf8Bytes (0x10000 + (c.toNat - 0xD800) * 1024 + (d.toNat - 0xDC00)) ++ toUtf8 s
    else unitBytes c ++ toUtf8 (d :: s)

/-- `QChar::isSpace`: ASCII white space and the Unicode separators. -/
def isSpace (c : QChar) : Bool :=
  c == 0x20 || (9 ≤ c && c ≤ 13) || c == 0x85 || c == 0xA0 || c == 0x1680
    || (0x2000 ≤ c && c ≤ 0x200A) || c == 0x2028 || c == 0x2029 || c == 0x202F || c == 0x205F
    || c == 0x3000

def trimmed (s : QString) : QString :=
  ((s.dropWhile isSpace).reverse.dropWhile isSpace).reverse

end QString

/-! ## File names -/

/-- `QFileInfo::fileName`: the text after the last slash. -/
def QFileInfo.fileName (path : QString) : QString := (path.reverse.takeWhile (· != 47)).reverse

/-- `QFileInfo::suffix`: the text after the last dot of the file name. -/
def QFileInfo.suffix (path : QString) : QString :=
  let name := QFileInfo.fileName path
  if name.contains 46 then (name.reverse.takeWhile (· != 46)).reverse else []

/-- `QFileInfo::completeBaseName`: the file name up to its last dot. -/
def QFileInfo.completeBaseName (path : QString) : QString :=
  let name := QFileInfo.fileName path
  if name.contains 46 then ((name.reverse.dropWhile (· != 46)).drop 1).reverse else name

end LocalSend
