import LocalSend.Qt.Text

/-!
# JSON values, and the library the program is linked against

`QJsonValue` and `QJsonObject` with the accessors the program calls; a number is the rational a
double stands for. An object holds each key once: of a repeated key the first field is read.

The class `Qt` holds what is outside the repository and is used as a function of its arguments:
Unicode case mapping, URL parsing, the JSON text format, the hashes, and the value of a
floating-point number outside the range of the integer it is converted to.
-/

set_option autoImplicit false

namespace LocalSend

inductive QJsonValue where
  | null
  | bool (b : Bool)
  | double (d : Rat)
  | string (s : QString)
  | array (values : List QJsonValue)
  | object (fields : List (QString × QJsonValue))

abbrev QJsonObject := List (QString × QJsonValue)

namespace QJsonValue

/-- `toString(fallback)`: the fallback unless the value is a string. -/
def toString (v : QJsonValue) (fallback : QString) : QString :=
  match v with
  | .string s => s
  | _ => fallback

def toObject : QJsonValue → QJsonObject
  | .object fields => fields
  | _ => []

def toBool (v : QJsonValue) (fallback : Bool) : Bool :=
  match v with
  | .bool b => b
  | _ => fallback

def toDouble : QJsonValue → Rat
  | .double d => d
  | _ => 0

/-- `toInt(fallback)`: the fallback unless the value is a whole number that fits an `int`. -/
def toInt (v : QJsonValue) (fallback : Int) : Int :=
  match v with
  | .double d => if d.den = 1 ∧ -2 ^ 31 ≤ d.num ∧ d.num < 2 ^ 31 then d.num else fallback
  | _ => fallback

def isDouble : QJsonValue → Bool
  | .double _ => true
  | _ => false

end QJsonValue

namespace QJsonObject

/-- A missing key reads as `null`, from which every accessor returns its fallback. -/
def value (o : QJsonObject) (key : QString) : QJsonValue := (o.lookup key).getD .null

def keys (o : QJsonObject) : List QString := (o.map (·.1)).eraseDups

def count (o : QJsonObject) : Nat := (keys o).length

def insert (o : QJsonObject) (key : QString) (v : QJsonValue) : QJsonObject :=
  (key, v) :: o.filter (·.1 != key)

end QJsonObject

/-- The Qt and OpenSSL functions the program calls, as functions of their arguments. -/
class Qt where
  toUpper : QString → QString
  /-- `QString::compare(.., Qt::CaseInsensitive)`. -/
  compareNoCase : QString → QString → Ordering
  /-- `QUrl::fromEncoded(.., StrictMode).path()`. -/
  urlPath : QByteArray → QString
  /-- `QUrlQuery(url).queryItems(FullyDecoded)`. -/
  urlQueryItems : QByteArray → List (QString × QString)
  /-- `QJsonDocument::fromJson(..)` when it is an object. -/
  fromJson : QByteArray → Option QJsonObject
  /-- `QJsonDocument(..).toJson(Compact)`. -/
  toJson : QJsonObject → QByteArray
  sha256 : QByteArray → QByteArray
  /-- PBKDF2-HMAC-SHA256 of a secret, a salt, an iteration count and a length. -/
  pbkdf2 : QByteArray → QByteArray → Nat → Nat → QByteArray
  /-- `qint64(d)` for a `d` that no `qint64` truncates to. -/
  castOverflow : Rat → Int64

/-- `qint64(d)`: truncation towards zero. -/
def qint64 [Qt] (d : Rat) : Int :=
  let n := d.num.tdiv d.den
  if -2 ^ 63 ≤ n ∧ n < 2 ^ 63 then n else (Qt.castOverflow d).toInt

/-- `double(n)`: the nearest of the numbers with 53 significant bits, ties to even. -/
def doubleOf (n : Nat) : Rat :=
  if n < 2 ^ 53 then (n : Rat)
  else
    let unit := 2 ^ (n.log2 - 52)
    let q := n / unit
    let r := n % unit
    let q' := if 2 * r < unit ∨ (2 * r = unit ∧ q % 2 = 0) then q else q + 1
    ((q' * unit : Nat) : Rat)

end LocalSend
