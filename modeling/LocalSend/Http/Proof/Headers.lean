import LocalSend.Http.Proof.Framed
import LocalSend.Lib.Gather

/-!
# The header lines of a request

`insertHeaders` gathers the headers that the lines spell (`headerOf`) into the table, so the order
of the lines does not matter, and a head is refused just for a request line of one part or for two
lines that contradict each other (`parseHead_reordered`). The table is empty then, in every run
(`reading_headers`).
-/

set_option autoImplicit false

namespace LocalSend

/-- The request line of a head, without the blanks around it. -/
def requestLine (head : QByteArray) : QByteArray :=
  QByteArray.trimmed ((head.splitOn 10).headD [])

/-- The lines after it, without the blanks around them. -/
def headerLines (head : QByteArray) : List QByteArray :=
  (head.splitOn 10).tail.map QByteArray.trimmed

/-- The name and the value that a trimmed line spells; a line without a name spells no header. -/
def headerOf (line : QByteArray) : Option (QByteArray × QByteArray) :=
  match QByteArray.indexOfByte line 58 with
  | none | some 0 => none
  | some colon => some (QByteArray.toLower (QByteArray.trimmed (line.take colon)),
      QByteArray.trimmed (line.drop (colon + 1)))

/-- The headers of a head, names in lower case. -/
def headersOf (head : QByteArray) : List (QByteArray × QByteArray) :=
  (headerLines head).filterMap headerOf

/-- The same request line, and the same header lines in some order. -/
structure Reordered (head head' : QByteArray) : Prop where
  request : requestLine head' = requestLine head
  headers : (headerLines head').Perm (headerLines head)

/-- The request line has two parts, and no two header lines of one name differ. -/
structure Acceptable (head : QByteArray) : Prop where
  parts : 2 ≤ ((requestLine head).splitOn 32).length
  consistent : Lib.Consistent (headersOf head)

/-- What the rest of the request is read by. -/
structure SameHead (c c' : HttpConnection) : Prop where
  method : c'.method = c.method
  path : c'.path = c.path
  query : ∀ key, c'.queryValue key = c.queryValue key
  header : ∀ name, c'.header name = c.header name
  chunked : c'.chunked = c.chunked
  contentLength : c'.contentLength = c.contentLength

namespace Port

theorem insertHeaders_eq (lines : List QByteArray) (t : AList fun _ : QByteArray => QByteArray) :
    insertHeaders lines t = Lib.gather ((lines.map QByteArray.trimmed).filterMap headerOf) t := by
  induction lines generalizing t with
  | nil => rfl
  | cons line lines ih =>
    rw [insertHeaders, List.map_cons]
    cases hcolon : QByteArray.indexOfByte (QByteArray.trimmed line) 58 with
    | none =>
      rw [List.filterMap_cons_none (by rw [headerOf, hcolon])]
      exact ih t
    | some colon =>
      cases colon with
      | zero =>
        have hnone : headerOf (QByteArray.trimmed line) = none := by
          unfold headerOf
          rw [hcolon]
          rfl
        rw [List.filterMap_cons_none hnone]
        exact ih t
      | succ colon =>
        have hsome : headerOf (QByteArray.trimmed line) =
            some (QByteArray.toLower (QByteArray.trimmed ((QByteArray.trimmed line).take (colon + 1))),
              QByteArray.trimmed ((QByteArray.trimmed line).drop (colon + 1 + 1))) := by
          unfold headerOf
          rw [hcolon]
          rfl
        rw [List.filterMap_cons_some hsome, Lib.gather]
        simp only [ih]
        cases t.lookup (QByteArray.toLower (QByteArray.trimmed
            ((QByteArray.trimmed line).take (colon + 1)))) with
        | none => rfl
        | some earlier =>
          by_cases heq : earlier = QByteArray.trimmed ((QByteArray.trimmed line).drop (colon + 1 + 1))
          · simp [heq]
          · simp [heq]

theorem setFraming_congr {c c' : HttpConnection}
    (h : ∀ name, c'.headers.lookup name = c.headers.lookup name) :
    (setFraming c').chunked = (setFraming c).chunked ∧
      (setFraming c').contentLength = (setFraming c).contentLength := by
  unfold setFraming
  simp only [h, and_self]

theorem setFraming_header (c : HttpConnection) (name : QByteArray) :
    (setFraming c).header name = c.header name := rfl

section
variable [Qt] {head head' : QByteArray} {c : HttpConnection}

/-- The connection with a head's request line read into it. -/
def withTarget (c : HttpConnection) (method target : QByteArray) : HttpConnection := { c with
  method := Qt.toUpper (QString.fromLatin1 method)
  path := Qt.urlPath target
  query := (Qt.urlQueryItems target).foldl
    (fun q (item : QString × QString) => q.insert item.1 item.2) c.query }

theorem readHead_eq (head : QByteArray) (c : HttpConnection) : readHead head c =
    match (requestLine head).splitOn 32 with
    | method :: target :: _ =>
      let r := Lib.gather (headersOf head) c.headers
      let c := { withTarget c method target with headers := r.1 }
      if r.2 then (setFraming c, true) else (c, false)
    | _ => (c, false) := by
  have hne : head.splitOn 10 ≠ [] := List.splitOn_ne_nil 10 head
  unfold readHead requestLine headersOf headerLines
  cases hlines : head.splitOn 10 with
  | nil => exact absurd hlines hne
  | cons first lines =>
    simp only [List.headD_cons, List.tail_cons, insertHeaders_eq]
    rfl

theorem readHead_ok_iff (hc : c.headers = ∅) : (readHead head c).2 = true ↔ Acceptable head := by
  rw [readHead_eq]
  split
  · rename_i method target rest hparts
    simp only
    rw [hc]
    have hlength : 2 ≤ ((requestLine head).splitOn 32).length := by
      rw [hparts]
      simp
    constructor
    · intro h
      refine ⟨hlength, Lib.gather_empty_iff.1 ?_⟩
      by_contra hno
      rw [if_neg hno] at h
      exact Bool.noConfusion h
    · intro h
      rw [if_pos (Lib.gather_empty_iff.2 h.consistent)]
  · rename_i hparts
    refine iff_of_false (by simp) fun h => ?_
    have hlength := h.parts
    cases hsplit : (requestLine head).splitOn 32 with
    | nil => simp [hsplit] at hlength
    | cons method rest =>
      cases rest with
      | nil => simp [hsplit] at hlength
      | cons target rest => exact hparts _ _ _ hsplit

/-- A header that is looked up is the value of every line of that name. -/
theorem header_readHead (hok : (readHead head c).2 = true)
    {name value : QByteArray} (h : (QByteArray.toLower name, value) ∈ headersOf head) :
    (readHead head c).1.header name = value := by
  rw [readHead_eq] at hok ⊢
  split at hok
  · simp only at hok ⊢
    split at hok
    · rename_i hgather
      rw [if_pos hgather, setFraming_header]
      unfold HttpConnection.header
      rw [(Lib.lookup_gather hgather _ value).2 (.inr h)]
      rfl
    · exact Bool.noConfusion hok
  · exact Bool.noConfusion hok

theorem readHead_reordered (h : Reordered head head') :
    (readHead head' c).2 = (readHead head c).2 ∧
      ((readHead head c).2 = true → SameHead (readHead head c).1 (readHead head' c).1) := by
  have hperm : (headersOf head').Perm (headersOf head) := h.headers.filterMap headerOf
  rw [readHead_eq, readHead_eq, h.request]
  split
  · rename_i method target rest hparts
    simp only
    have hgather := Lib.gather_perm (t := c.headers) hperm
    by_cases hok : (Lib.gather (headersOf head') c.headers).2 = true
    · have hlookup := Lib.lookup_gather_perm hperm hok
      rw [if_pos hok, if_pos (hgather ▸ hok)]
      have hframing := @setFraming_congr
        { withTarget c method target with headers := (Lib.gather (headersOf head) c.headers).1 }
        { withTarget c method target with headers := (Lib.gather (headersOf head') c.headers).1 }
        hlookup
      refine ⟨rfl, fun _ => ⟨rfl, rfl, fun _ => rfl, fun name => ?_, hframing.1, hframing.2⟩⟩
      rw [setFraming_header, setFraming_header]
      unfold HttpConnection.header
      rw [hlookup]
    · rw [if_neg hok, if_neg (by rw [← hgather]; exact hok)]
      exact ⟨rfl, fun hno => Bool.noConfusion hno⟩
  · exact ⟨rfl, fun hno => Bool.noConfusion hno⟩

/-- Whatever happens to a connection, its head is read into an empty table. -/
theorem reading_headers {s : Exchange} (hs : Exchange.Start s) (events : List ExchangeEvent)
    (hread : (events.foldl Exchange.next s).conn.state = .readingHeaders) :
    (events.foldl Exchange.next s).conn.headers = ∅ := by
  have hinv : (events.foldl Exchange.next s).Inv := Exchange.reached_inv (.run_any events (.start hs))
  have hrested := (Exchange.Framed.run hs events).part (hinv.head hread).1
  exact (hrested.head hread).1.headers

/-- A head is accepted if and only if its request line has two parts and no two header lines of one
name differ; then every header reads as each of its lines says; and the order of the header lines
changes nothing. -/
theorem parseHead_reordered {σ : Type} (P : Port σ) (s : σ) (hfresh : (P.get s).headers = ∅)
    (h : Reordered head head') :
    (P.parseHead head' s).1 = (P.parseHead head s).1 ∧
    ((P.parseHead head s).1 = true ↔ Acceptable head) ∧
    ((P.parseHead head s).1 = true →
      SameHead (P.get (P.parseHead head s).2) (P.get (P.parseHead head' s).2) ∧
      ∀ name value, (QByteArray.toLower name, value) ∈ headersOf head →
        (P.get (P.parseHead head s).2).header name = value) := by
  have hfst : ∀ head, (P.parseHead head s).1 = (readHead head (P.get s)).2 := by
    intro head
    unfold parseHead
    simp only
    split
    · exact Eq.symm ‹_›
    · exact (Bool.eq_false_iff.2 ‹_›).symm
  have hget : ∀ {head}, (readHead head (P.get s)).2 = true →
      P.get (P.parseHead head s).2 = (readHead head (P.get s)).1 := by
    intro head hok
    unfold parseHead
    simp only
    rw [if_pos hok, P.get_set]
  obtain ⟨hsame, hhead⟩ := readHead_reordered (c := P.get s) h
  rw [hfst, hfst, hsame]
  refine ⟨rfl, readHead_ok_iff hfresh, fun hok => ?_⟩
  rw [hget hok, hget (hsame.trans hok)]
  exact ⟨hhead hok, fun name value hmem => header_readHead hok hmem⟩

end

section

local instance headersQt : Qt := Ascii.qt [] []

/-- A connection by itself. -/
def alonePort : Port HttpConnection where
  get c := c
  set c _ := c
  closed c := c
  get_set _ _ := rfl
  set_get _ := rfl
  set_set _ _ _ := rfl

def twoHeaders : QByteArray :=
  ascii "GET /info HTTP/1.1" ++ crlf ++ ascii "Host: a" ++ crlf ++ ascii "EXPECT:b"

def twoHeadersSwapped : QByteArray :=
  ascii "GET /info HTTP/1.1" ++ crlf ++ ascii "EXPECT:b" ++ crlf ++ ascii "Host: a"

theorem parseHead_reordered_two :
    (alonePort.parseHead twoHeadersSwapped (.accepted 0 [] none)).1 =
      (alonePort.parseHead twoHeaders (.accepted 0 [] none)).1 :=
  have hswap : Reordered twoHeaders twoHeadersSwapped := ⟨by decide, by decide⟩
  (parseHead_reordered alonePort (.accepted 0 [] none) rfl hswap).1

end

end Port

end LocalSend
