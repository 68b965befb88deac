import LocalSend.Qt.Json

/-!
# The library on ASCII input

The functions of `Qt` as they are on ASCII text without percent escapes, and on the JSON documents
and the digests that are listed. The witnesses and counterexamples run the model with it.
-/

set_option autoImplicit false

namespace LocalSend.Ascii

def upper (c : QChar) : QChar := if 97 ≤ c && c ≤ 122 then c - 32 else c

def lower (c : QChar) : QChar := if 65 ≤ c && c ≤ 90 then c + 32 else c

def compareFolded : QString → QString → Ordering
  | [], [] => .eq
  | [], _ :: _ => .lt
  | _ :: _, [] => .gt
  | c :: s, d :: t => (compare (lower c) (lower d)).then (compareFolded s t)

theorem compareFolded_eq (s t : QString) :
    compareFolded s t = compare (s.map lower) (t.map lower) := by
  induction s generalizing t with
  | nil => cases t <;> rfl
  | cons c s ih =>
    cases t with
    | nil => rfl
    | cons d t =>
      rw [compareFolded, ih, List.map_cons, List.map_cons]
      exact (List.compareLex_cons_cons ..).symm

instance : Std.TransCmp compareFolded where
  eq_swap := by
    intro s t
    rw [compareFolded_eq, compareFolded_eq]
    exact Std.OrientedCmp.eq_swap
  isLE_trans := by
    intro s t u
    rw [compareFolded_eq, compareFolded_eq, compareFolded_eq]
    exact Std.TransCmp.isLE_trans

/-- The fields of a query string, split at `&` and then at the first `=`. -/
def queryItems (query : QByteArray) : List (QString × QString) :=
  ((query.splitOn 38).filter (· ≠ [])).map fun item =>
    (QString.fromLatin1 (item.takeWhile (· != 61)),
      QString.fromLatin1 ((item.dropWhile (· != 61)).drop 1))

/-- Characters as they stand in a JSON string. -/
def quoted (s : QString) : QByteArray := 34 :: (s.map fun c => c.toUInt8) ++ [34]

def joined (parts : List QByteArray) : QByteArray := [44].intercalate parts

mutual

def value : QJsonValue → QByteArray
  | .null => ascii "null"
  | .bool b => ascii (if b then "true" else "false")
  | .double d => (if d.num < 0 then [45] else []) ++ QByteArray.number d.num.natAbs
  | .string s => quoted s
  | .array values => 91 :: joined (elements values) ++ [93]
  | .object fields => 123 :: joined (members fields) ++ [125]

def elements : List QJsonValue → List QByteArray
  | [] => []
  | v :: values => value v :: elements values

def members : List (QString × QJsonValue) → List QByteArray
  | [] => []
  | (key, v) :: fields => (quoted key ++ 58 :: value v) :: members fields

end

/-- The compact text of an object whose fields stand in the order of their keys. -/
def json (o : QJsonObject) : QByteArray := 123 :: joined (members o) ++ [125]

@[reducible] def qt (documents : List (QByteArray × QJsonObject)) (digests : List (QByteArray × QByteArray)) :
    Qt where
  toUpper s := s.map upper
  compareNoCase := compareFolded
  urlPath target := QString.fromLatin1 (target.takeWhile (· != 63))
  urlQueryItems target := queryItems ((target.dropWhile (· != 63)).drop 1)
  fromJson text := documents.lookup text
  toJson := json
  sha256 data := (digests.lookup data).getD []
  pbkdf2 _ _ _ _ := []
  castOverflow _ := 0

end LocalSend.Ascii
