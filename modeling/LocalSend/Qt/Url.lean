import LocalSend.Lib.LastSplit
import LocalSend.Qt.Arg

/-!
# Addresses and URLs

Addresses as `QHostAddress` spells them, and what `QUrl` reads from a URL: its scheme, host and
port. The authority is taken apart here; what is made of the text of a host is the library's
(`HostParser`).
-/

set_option autoImplicit false

namespace LocalSend

namespace QString

def indexOf (s : QString) (c : QChar) : Option Nat := s.findIdx? (· == c)

def lastIndexOf (s : QString) (c : QChar) : Option Nat :=
  (s.reverse.findIdx? (· == c)).map (s.length - 1 - ·)

theorem lastIndexOf_append {a b : QString} {c : QChar} (h : c ∉ b) :
    lastIndexOf (a ++ c :: b) c = some a.length := by
  have hfind : (a ++ c :: b).reverse.findIdx? (· == c) = some b.length := by
    rw [List.reverse_append, List.reverse_cons, List.append_assoc, List.findIdx?_append,
      List.findIdx?_eq_none_iff.2 fun d hd => ?_]
    · simp [List.findIdx?_cons]
    · simp only [beq_eq_false_iff_ne]
      rintro rfl
      exact h (List.mem_reverse.1 hd)
  unfold lastIndexOf
  rw [hfind]
  simp

theorem lastIndexOf_none {s : QString} {c : QChar} (h : c ∉ s) : lastIndexOf s c = none := by
  unfold lastIndexOf
  rw [List.findIdx?_eq_none_iff.2 fun d hd => ?_]
  · rfl
  · simp only [beq_eq_false_iff_ne]
    rintro rfl
    exact h (List.mem_reverse.1 hd)

theorem exists_lastIndexOf {s : QString} {c : QChar} (h : c ∈ s) :
    ∃ a b, s = a ++ c :: b ∧ c ∉ b ∧ lastIndexOf s c = some a.length := by
  obtain ⟨a, b, hsplit⟩ := Lib.exists_splits h
  refine ⟨a, b, hsplit.eq, hsplit.last, ?_⟩
  rw [hsplit.eq]
  exact lastIndexOf_append hsplit.last

end QString

/-! ## Addresses -/

/-- The four numbers of an IPv4 address. -/
def ipv4 (a b c d : UInt8) : QString :=
  QString.number a.toNat ++ 46 :: (QString.number b.toNat ++ 46 :: (QString.number c.toNat ++
    46 :: QString.number d.toNat))

/-- What an IPv6 address without a scope is spelled with. -/
def isIpv6Char (c : QChar) : Bool :=
  QString.isDigit c || (65 ≤ c && c ≤ 70) || (97 ≤ c && c ≤ 102) || c == 58 || c == 46

/-- An IPv6 address without a scope, as text. -/
structure Ipv6 where
  text : QString
  chars : ∀ c ∈ text, isIpv6Char c = true
  colons : 2 ≤ text.count 58

/-- A mapped IPv4 address loses its prefix. -/
def unmapped (address : QString) : QString :=
  if (str "::ffff:").isPrefixOf address then address.drop 7 else address

theorem ipv4_chars {a b c d : UInt8} {e : QChar} (h : e ∈ ipv4 a b c d) :
    QString.isDigit e = true ∨ e = 46 := by
  unfold ipv4 at h
  simp only [List.mem_append, List.mem_cons] at h
  rcases h with h | h | h | h | h | h | h
  all_goals first | exact .inl (QString.number_digits h) | exact .inr h

/-! ## URLs -/

/-- What the library makes of the text of a host, with what is documented of it: an IP literal
between brackets comes out as an IPv6 address, a name has no colon in it, and an IPv4 address is
kept. -/
structure HostParser where
  literal : QString → Option QString
  name : QString → Option QString
  literal_chars : ∀ s h, literal s = some h → ∀ c ∈ h, isIpv6Char c = true
  name_chars : ∀ s h, name s = some h → 58 ∉ h
  name_ipv4 : ∀ a b c d, name (ipv4 a b c d) = some (ipv4 a b c d)

structure QUrl where
  scheme : QString
  host : QString
  port : Option Nat
  deriving DecidableEq

namespace QUrl

def isLetter (c : QChar) : Bool := (65 ≤ c && c ≤ 90) || (97 ≤ c && c ≤ 122)

def isScheme : QString → Bool
  | [] => false
  | c :: s => isLetter c && s.all fun c =>
    isLetter c || QString.isDigit c || c == 43 || c == 45 || c == 46

def lower (c : QChar) : QChar := if 65 ≤ c && c ≤ 90 then c + 32 else c

/-- `setHost`: a host in brackets is an IP literal. -/
def readHost (hosts : HostParser) : QString → Option QString
  | [] => some []
  | 91 :: s => if s.getLast? = some 93 then hosts.literal s.dropLast else none
  | s => hosts.name s

/-- The colon before the port: the last one, unless an IP literal is closed after it. -/
def portColon (authority : QString) : Option Nat :=
  match QString.lastIndexOf authority 58 with
  | none => none
  | some colon =>
    if authority.head? = some 91 then
      match QString.indexOf authority 93 with
      | none => none
      | some closing => if closing > colon then none else some colon
    else some colon

/-- `setAuthority`: the host and the port. -/
def readAuthority (hosts : HostParser) (authority : QString) : Option (QString × Option Nat) :=
  let authority := match QString.indexOf authority 64 with
    | none => authority
    | some userInfo => authority.drop (userInfo + 1)
  match portColon authority with
  | none => (readHost hosts authority).map (·, none)
  | some colon =>
    let digits := authority.drop (colon + 1)
    let host := readHost hosts (authority.take colon)
    if digits = [] then host.map (·, none)
    else (QString.magnitude digits).bind fun n =>
      if n < 65536 then host.map (·, some n) else none

/-- A URL with an authority; the text after it does not matter here. -/
def parse (hosts : HostParser) (text : QString) : Option QUrl :=
  let scheme := text.takeWhile (· != 58)
  match text.drop scheme.length with
  | 58 :: 47 :: 47 :: rest =>
    if isScheme scheme then
      (readAuthority hosts (rest.takeWhile fun c => c != 47 && c != 63 && c != 35)).map fun r =>
        ⟨scheme.map lower, r.1, r.2⟩
    else none
  | _ => none

end QUrl

end LocalSend
