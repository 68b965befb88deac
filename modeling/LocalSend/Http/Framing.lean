import LocalSend.Http.Connection

/-!
# Where a request ends

`Judge.scan` reads a byte stream as one request, byte by byte and apart from the class that reads
it: a head, and a body that is chunked or of a stated length. What counts as a chunk-size line, as
the end of a chunk and as a length is up to a `Judge`. `Judge.strict` takes what the format has;
`Judge.lenient` takes what the class takes.
-/

set_option autoImplicit false

namespace LocalSend

/-- What is wrong with a body. -/
inductive Fault
  | sizeLine (line : QByteArray)
  | ending (bytes : QByteArray)
  | length (value : QByteArray)
  deriving DecidableEq

/-- What the next byte belongs to. -/
inductive Phase
  | head (seen : QByteArray)
  | size (line : QByteArray)
  | data (left : Nat)
  | ending (seen : QByteArray)
  | trailer (line : QByteArray)
  | sized (left : Nat)
  | complete
  | faulty (f : Fault)
  /-- The head is refused, or a preflight: nothing of a body is read. -/
  | bodiless
  deriving DecidableEq

structure Scan where
  phase : Phase
  body : QByteArray
  deriving DecidableEq

structure Judge where
  /-- The size that a chunk-size line states. -/
  size : QByteArray → Option Nat
  /-- Whether a chunk's data may be followed by these two bytes. -/
  ending : QByteArray → Bool
  /-- The length that a Content-Length states. -/
  length : QByteArray → Option Nat

namespace Judge

/-- The number these digits spell, if a `qint64` holds it. -/
def number (base : Nat) (digits : QByteArray) : Option Nat :=
  if digits ≠ [] ∧ digits.all (QByteArray.isDigit base) ∧
      QByteArray.digitsValue base 0 digits < 2 ^ 63 then
    some (QByteArray.digitsValue base 0 digits)
  else none

/-- Hex digits, and an extension after a semicolon; CRLF; decimal digits. -/
def strict : Judge where
  size line := number 16 (line.takeWhile (· ≠ 59))
  ending bytes := bytes = crlf
  length value := number 10 value

/-- What `consumeChunkedBody` and `parseHead` take. -/
def lenient : Judge where
  size line := (Host.sizeOfLine line).bind Int.toNat?
  ending _ := true
  length value := some ((QByteArray.toLongLong 10 value).getD 0).toNat

section
variable [Qt] (J : Judge)

/-- What follows a head. -/
def afterHead (head : QByteArray) : Phase :=
  match Port.readHead head (.accepted 0 [] none) with
  | (_, false) => .bodiless
  | (c, true) =>
    if c.method = str "OPTIONS" then .bodiless
    else if c.chunked then .size []
    else match c.headers.lookup (ascii "content-length") with
      | none => .complete
      | some value => match J.length value with
        | none => .faulty (.length value)
        | some 0 => .complete
        | some n => .sized n

/-- What follows a chunk-size line. -/
def afterSize (line : QByteArray) : Phase :=
  match J.size line with
  | none => .faulty (.sizeLine line)
  | some 0 => .trailer []
  | some n => .data n

def step (x : Scan) (b : UInt8) : Scan :=
  match x.phase with
  | .head seen =>
    let seen := seen ++ [b]
    { x with phase :=
        if crlf ++ crlf <:+ seen then J.afterHead (seen.take (seen.length - 4)) else .head seen }
  | .size line =>
    let line := line ++ [b]
    { x with phase :=
        if crlf <:+ line then J.afterSize (line.take (line.length - 2)) else .size line }
  | .data left => ⟨if left ≤ 1 then .ending [] else .data (left - 1), x.body ++ [b]⟩
  | .ending seen =>
    let seen := seen ++ [b]
    { x with phase :=
        if seen.length < 2 then .ending seen
        else if J.ending seen then .size [] else .faulty (.ending seen) }
  | .trailer line =>
    let line := line ++ [b]
    { x with phase :=
        if crlf <:+ line then if line = crlf then .complete else .trailer []
        else .trailer line }
  | .sized left => ⟨if left ≤ 1 then .complete else .sized (left - 1), x.body ++ [b]⟩
  | .complete | .faulty _ | .bodiless => x

def scan (stream : QByteArray) : Scan := stream.foldl J.step ⟨.head [], []⟩

end

end Judge

/-- The class takes it for something else. -/
def Fault.overlooked : Fault → Bool
  | .sizeLine line => (Judge.lenient.size line).isSome
  | .ending _ | .length _ => true

end LocalSend
