import LocalSend.Http.Proof.Exchange
import LocalSend.Lib.Search
import LocalSend.Qt.Arg

/-!
# The lines of a response

`respond` writes lines, an empty line and the payload (`Response.bytes_eq`). No line is empty, and
none has a line break in it whatever `addHeader` was given, so the first empty line of the output is
that one (`respond_unsplit`).
-/

set_option autoImplicit false

namespace LocalSend

/-! ## Lines -/

/-- Without a line break. -/
def Unbroken (s : QByteArray) : Prop := 13 ∉ s ∧ 10 ∉ s

instance (s : QByteArray) : Decidable (Unbroken s) := inferInstanceAs (Decidable (_ ∧ _))

structure IsLine (l : QByteArray) : Prop where
  nonempty : l ≠ []
  unbroken : Unbroken l

def blankLine : QByteArray := crlf ++ crlf

theorem closes_append {l a : QByteArray} (hl : 13 ∉ l) (h : Lib.Closes blankLine a) :
    Lib.Closes blankLine (l ++ a) := by
  induction l with
  | nil => exact h
  | cons c l ih =>
    have hc : c ≠ 13 := fun hc => hl (by simp [hc])
    have ih := ih fun hmem => hl (by simp [hmem])
    have hblank : blankLine.isPrefixOf (c :: (l ++ a ++ blankLine)) = false := by
      simp [blankLine, crlf, List.isPrefixOf, Ne.symm hc]
    unfold Lib.Closes at ih ⊢
    rw [List.cons_append, List.cons_append, Lib.indexOf, hblank, ih]
    simp

/-- A line break that something else follows is no blank line. -/
theorem closes_break {c : UInt8} {a : QByteArray} (hc : c ≠ 13)
    (h : Lib.Closes blankLine (c :: a)) : Lib.Closes blankLine (crlf ++ c :: a) := by
  have hfirst : blankLine.isPrefixOf (13 :: 10 :: (c :: a ++ blankLine)) = false := by
    simp [blankLine, crlf, List.isPrefixOf, Ne.symm hc]
  have hsecond : blankLine.isPrefixOf (10 :: (c :: a ++ blankLine)) = false := by
    simp [blankLine, crlf, List.isPrefixOf]
  unfold Lib.Closes at h ⊢
  show Lib.indexOf blankLine (13 :: 10 :: (c :: a ++ blankLine)) = some (c :: a).length.succ.succ
  rw [Lib.indexOf, hfirst, Lib.indexOf, hsecond, h]
  simp

/-- Lines are closed by the first blank line. -/
theorem closes_lines : ∀ {lines : List QByteArray}, lines ≠ [] → (∀ l ∈ lines, IsLine l) →
    ∃ c a, lines.flatMap (· ++ crlf) = c :: a ++ crlf ∧ c ≠ 13 ∧ Lib.Closes blankLine (c :: a)
  | [], hne, _ => absurd rfl hne
  | [] :: _, _, h => absurd rfl (h [] (by simp)).nonempty
  | (c :: l) :: lines, _, h => by
    have hl : 13 ∉ c :: l := (h (c :: l) (by simp)).unbroken.1
    have hc : c ≠ 13 := fun hc => hl (by simp [hc])
    cases lines with
    | nil =>
      refine ⟨c, l, by simp, hc, ?_⟩
      have hclosed := closes_append hl (Lib.closes_nil blankLine)
      rwa [List.append_nil] at hclosed
    | cons m lines =>
      have hne : m :: lines ≠ [] := by simp
      obtain ⟨d, a, heq, hd, hclosed⟩ := closes_lines hne
        fun l hl => h l (by simp [List.mem_cons.1 hl])
      refine ⟨c, l ++ (crlf ++ d :: a), ?_, hc, ?_⟩
      · rw [List.flatMap_cons, heq]
        simp
      · exact closes_append hl (closes_break hd hclosed)

/-! ## What a response consists of -/

/-- What `addHeader` leaves of a name or a value. -/
def flattened (s : QByteArray) : QByteArray := s.filter fun b => b != 13 && b != 10

def headerLine (header : QByteArray × QByteArray) : QByteArray :=
  header.1 ++ ascii ": " ++ header.2

def statusLine (status : Nat) : QByteArray :=
  ascii "HTTP/1.1 " ++ QByteArray.number status ++ ascii " " ++ reasonPhrase status

def lengthLine (payload : QByteArray) : QByteArray :=
  ascii "Content-Length: " ++ QByteArray.number payload.length

def typeLines (contentType : QByteArray) : List QByteArray :=
  if contentType = [] then [] else [ascii "Content-Type: " ++ contentType]

/-- The headers that every response ends with. -/
def fixedLines : List QByteArray := [
  ascii "Access-Control-Allow-Origin: *",
  ascii "Access-Control-Allow-Methods: GET, POST, OPTIONS",
  ascii "Access-Control-Allow-Headers: Content-Type",
  ascii "Connection: close"]

namespace Response

def lines (r : Response) : List QByteArray :=
  statusLine r.status :: (typeLines r.contentType ++ lengthLine r.payload ::
    (r.extraHeaders.map headerLine ++ fixedLines))

theorem bytes_eq (r : Response) : r.bytes = r.lines.flatMap (· ++ crlf) ++ crlf ++ r.payload := by
  have htype : (typeLines r.contentType).flatMap (· ++ crlf) =
      if r.contentType = [] then [] else ascii "Content-Type: " ++ r.contentType ++ crlf := by
    unfold typeLines
    split <;> simp
  have hextra : (r.extraHeaders.map headerLine).flatMap (· ++ crlf) =
      r.extraHeaders.flatMap fun h => h.1 ++ ascii ": " ++ h.2 ++ crlf := by
    rw [List.flatMap_map]
    rfl
  simp only [lines, List.flatMap_cons, List.flatMap_append, htype, hextra]
  unfold bytes statusLine lengthLine fixedLines
  -- whatever the texts are
  generalize ascii "HTTP/1.1 " = version
  generalize ascii "Content-Length: " = length
  generalize ascii "Access-Control-Allow-Origin: *" = origin
  generalize ascii "Access-Control-Allow-Methods: GET, POST, OPTIONS" = methods
  generalize ascii "Access-Control-Allow-Headers: Content-Type" = headers
  generalize ascii "Connection: close" = connection
  simp only [List.flatMap_cons, List.flatMap_nil, List.append_assoc, List.nil_append]

end Response

theorem Unbroken.append {s t : QByteArray} (hs : Unbroken s) (ht : Unbroken t) :
    Unbroken (s ++ t) := by
  constructor
  · simp [hs.1, ht.1]
  · simp [hs.2, ht.2]

theorem unbroken_number (n : Nat) : Unbroken (QByteArray.number n) := by
  have hdigit : ∀ b ∈ QByteArray.number n, 48 ≤ b.toNat := by
    intro b hb
    obtain ⟨c, hc, rfl⟩ := List.mem_map.1 hb
    have hbounds := QString.toDigits_bounds hc
    rw [UInt8.toNat_ofNat']
    omega
  constructor
  · intro h
    exact absurd (hdigit 13 h) (by decide)
  · intro h
    exact absurd (hdigit 10 h) (by decide)

theorem unbroken_flattened (s : QByteArray) : Unbroken (flattened s) := by
  simp [Unbroken, flattened]

theorem unbroken_reasonPhrase (status : Nat) : Unbroken (reasonPhrase status) := by
  unfold reasonPhrase
  split <;> decide

theorem isLine_headerLine {header : QByteArray × QByteArray} (hname : Unbroken header.1)
    (hvalue : Unbroken header.2) : IsLine (headerLine header) := by
  refine ⟨?_, (hname.append (by decide)).append hvalue⟩
  unfold headerLine
  simp [ascii]

theorem isLine_fixedLines : ∀ l ∈ fixedLines, IsLine l := by
  intro l hl
  simp only [fixedLines, List.mem_cons, List.not_mem_nil, or_false] at hl
  rcases hl with rfl | rfl | rfl | rfl
  all_goals exact ⟨by decide, by decide⟩

/-- With no line break in the type or the headers, every line is one. -/
theorem Response.isLine (r : Response) (htype : Unbroken r.contentType)
    (hextra : ∀ h ∈ r.extraHeaders, Unbroken h.1 ∧ Unbroken h.2) : ∀ l ∈ r.lines, IsLine l := by
  intro l hl
  simp only [lines, List.mem_cons, List.mem_append, List.mem_map] at hl
  rcases hl with rfl | hl | rfl | ⟨h, hh, rfl⟩ | hl
  · refine ⟨by simp [statusLine, ascii], ?_⟩
    exact ((Unbroken.append (by decide) (unbroken_number r.status)).append (by decide)).append
      (unbroken_reasonPhrase r.status)
  · unfold typeLines at hl
    split at hl
    · exact absurd hl List.not_mem_nil
    · rw [List.mem_singleton.1 hl]
      exact ⟨by simp [ascii], Unbroken.append (by decide) htype⟩
  · exact ⟨by simp [lengthLine, ascii], Unbroken.append (by decide) (unbroken_number _)⟩
  · exact isLine_headerLine (hextra h hh).1 (hextra h hh).2
  · exact isLine_fixedLines l hl

/-! ## What `respond` writes -/

namespace Exchange

/-- Headers are added, one after the other. -/
def addHeaders (s : Exchange) (headers : List (QByteArray × QByteArray)) : Exchange :=
  headers.foldl (fun s h => s.react (.addHeader h.1 h.2)) s

theorem addHeaders_eq (s : Exchange) (headers : List (QByteArray × QByteArray)) :
    s.addHeaders headers = { s with conn := { s.conn with
      extraHeaders := s.conn.extraHeaders ++
        headers.map fun h => (flattened h.1, flattened h.2) } } := by
  induction headers generalizing s with
  | nil => simp [addHeaders]
  | cons h headers ih =>
    have hstep : s.addHeaders (h :: headers) = (s.react (.addHeader h.1 h.2)).addHeaders headers :=
      rfl
    rw [hstep, ih]
    simp [react, HttpConnection.addHeader, flattened, Port.modify, port]

theorem respond_sent {s : Exchange} (hopen : s.conn.state ≠ .responded)
    (hup : s.conn.connected = true) (status : Nat) (payload contentType : QByteArray) :
    (port.respond status payload contentType s).conn.sent =
      s.conn.sent ++ [.response ⟨status, contentType, s.conn.extraHeaders, payload⟩] := by
  have hhang : ∀ u : Exchange, (port.hangUp u).conn.sent = u.conn.sent := by
    intro u
    unfold Port.hangUp Port.onDisconnected
    split <;> rfl
  rw [respond_eq hopen]
  unfold Port.transmit
  rw [if_pos (by exact hup)]
  extract_lets u v
  have hv : v.conn.sent = u.conn.sent := by
    simp only [v]
    split
    · exact hhang u
    · rfl
  split
  · exact hv
  · exact hv

/-- What is written is a status line, a line for each header, the first empty line of the output
and the payload, whatever `addHeader` was called with. -/
theorem respond_unsplit {s : Exchange} (hopen : s.conn.state ≠ .responded)
    (hup : s.conn.connected = true) (hnone : s.conn.extraHeaders = []) (status : Nat)
    (payload : QByteArray) {contentType : QByteArray} (htype : Unbroken contentType)
    (headers : List (QByteArray × QByteArray)) :
    ∃ r : Response, ∃ lines : List QByteArray,
      (port.respond status payload contentType (s.addHeaders headers)).conn.sent =
        s.conn.sent ++ [.response r] ∧
      lines = statusLine status :: (typeLines contentType ++ lengthLine payload ::
        (headers.map (fun h => headerLine (flattened h.1, flattened h.2)) ++ fixedLines)) ∧
      r.bytes = lines.flatMap (· ++ crlf) ++ crlf ++ payload ∧ (∀ l ∈ lines, IsLine l) ∧
      ∃ n, Lib.indexOf blankLine r.bytes = some n ∧
        n + crlf.length = (lines.flatMap (· ++ crlf)).length := by
  let r : Response := ⟨status, contentType,
    headers.map fun h => (flattened h.1, flattened h.2), payload⟩
  have hlines : ∀ l ∈ r.lines, IsLine l := by
    refine r.isLine htype fun h hh => ?_
    obtain ⟨h', -, rfl⟩ := List.mem_map.1 hh
    exact ⟨unbroken_flattened h'.1, unbroken_flattened h'.2⟩
  refine ⟨r, r.lines, ?_, ?_, r.bytes_eq, hlines, ?_⟩
  · rw [addHeaders_eq, respond_sent (by exact hopen) (by exact hup), hnone]
    rfl
  · simp only [Response.lines, r, List.map_map]
    rfl
  · have hne : r.lines ≠ [] := by simp [Response.lines]
    obtain ⟨c, a, heq, -, hclosed⟩ := closes_lines hne hlines
    refine ⟨(c :: a).length, ?_, ?_⟩
    · rw [r.bytes_eq, heq]
      have hfirst := hclosed.first r.payload
      rw [blankLine] at hfirst ⊢
      rw [← List.append_assoc] at hfirst
      exact hfirst
    · rw [heq, List.length_append]

/-- The lines of an answer whose header was given a line break. -/
def retryLines : List QByteArray := [
  ascii "HTTP/1.1 429 Too Many Requests",
  ascii "Content-Type: application/json",
  ascii "Content-Length: 5",
  ascii "Retry-After: 5X: y",
  ascii "Access-Control-Allow-Origin: *",
  ascii "Access-Control-Allow-Methods: GET, POST, OPTIONS",
  ascii "Access-Control-Allow-Headers: Content-Type",
  ascii "Connection: close"]

theorem respond_unsplit_retry : ∃ r : Response,
    (port.respond 429 (ascii "later") jsonType ((accepted 0 [] none).addHeaders
      [(ascii "Retry-After", ascii "5" ++ crlf ++ ascii "X: y")])).conn.sent = [.response r] ∧
    r.bytes = retryLines.flatMap (· ++ crlf) ++ crlf ++ ascii "later" ∧
    ∃ n, Lib.indexOf blankLine r.bytes = some n ∧
      n + crlf.length = (retryLines.flatMap (· ++ crlf)).length := by
  obtain ⟨r, lines, hsent, hlines, hbytes, -, hblank⟩ := respond_unsplit
    (s := accepted 0 [] none) (by decide) rfl rfl 429 (ascii "later")
    (by decide : Unbroken jsonType) [(ascii "Retry-After", ascii "5" ++ crlf ++ ascii "X: y")]
  obtain rfl : lines = retryLines := hlines.trans (by decide +kernel)
  exact ⟨r, hsent, hbytes, hblank⟩

end Exchange

end LocalSend
