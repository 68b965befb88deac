import LocalSend.Http.Proof.Decode
import LocalSend.Qt.Ascii

/-!
# Requests under every segmentation

A connection that reads a request in pieces is in one of three stages (`Stage`): the head is not
complete, the body is not complete, or the request has been handed out. `Stage.read` is the step,
whatever the next piece brings, and `decodes_segments` the run over all of them.

`Recorder` is a connection with a handler that counts the signals and may stream the body to a
sink, which takes everything, and may answer once the request is complete.
-/

set_option autoImplicit false

namespace LocalSend

open Wire Lib

structure Recorder where
  conn : HttpConnection
  headersSeen : Nat
  requestsSeen : Nat
  sunk : QByteArray

structure Answer where
  status : Nat
  payload : QByteArray
  contentType : QByteArray

/-- What the handler does: stream the body to a sink with this ceiling, answer the request. -/
structure Handler where
  sinkMax : Option Int
  answer : Option Answer

namespace Recorder

def new (c : HttpConnection) : Recorder := ⟨c, 0, 0, []⟩

def port : Port Recorder where
  get r := r.conn
  set c r := { r with conn := c }
  closed r := r
  get_set _ _ := rfl
  set_get _ := rfl
  set_set _ _ _ := rfl

def host (h : Handler) : Host Recorder where
  toPort := port
  headersReady r :=
    let r := { r with headersSeen := r.headersSeen + 1 }
    match h.sinkMax with
    | some maxBytes => port.streamBodyTo 0 maxBytes r
    | none => r
  requestReady r :=
    let r := { r with requestsSeen := r.requestsSeen + 1 }
    match h.answer with
    | some a => port.respond a.status a.payload a.contentType r
    | none => r
  bodyProgress r := r
  write _ data r := (data.length, { r with sunk := r.sunk ++ data })

@[simp] theorem host_get (h : Handler) (r : Recorder) : (host h).get r = r.conn := rfl

@[simp] theorem host_modify (h : Handler) (f : HttpConnection → HttpConnection) (r : Recorder) :
    (host h).modify f r = { r with conn := f r.conn } := rfl

/-- The body as the handler gets it: from the sink it named, or from the connection. -/
def delivered (r : Recorder) : QByteArray := if r.conn.sink.isSome then r.sunk else r.conn.body

def seen (r : Recorder) : Nat × Nat := (r.headersSeen, r.requestsSeen)

theorem host_quiet (h : Handler) : (host h).Quiet Recorder.sunk seen where
  get_bodyProgress _ := rfl
  out_bodyProgress _ := rfl
  kept_bodyProgress _ := rfl
  out_set _ _ := rfl
  kept_set _ _ := rfl
  write_all _ _ _ := rfl
  get_write _ _ _ := rfl
  out_write _ _ _ := rfl
  kept_write _ _ _ := rfl

/-- A connection that reads the segments one after the other. -/
def reads [Qt] (h : Handler) (segments : List QByteArray) (r : Recorder) : Recorder :=
  segments.foldl (fun r data => (host h).onReadyRead data r) r

end Recorder

open Recorder

/-- `body` is framed by the head as the connection `c` has read it, and `wire` is its encoding. -/
inductive Framed (c : HttpConnection) : QByteArray → QByteArray → Prop
  | sized (body : QByteArray) : c.chunked = false → c.contentLength = body.length →
      Framed c body body
  | chunked (b : ChunkedBody) : c.chunked = true → b.trailerBytes.length + 2 ≤ MaxHeadSize →
      Framed c b.bytes b.payload

/-- The handler has room for a body of `n` bytes, and a `qint64` counts them. -/
def Handler.Room (h : Handler) (n : Nat) : Prop :=
  n < 2 ^ 63 ∧ match h.sinkMax with
    | some maxBytes => maxBytes < 0 ∨ (n : Int) ≤ maxBytes
    | none => n ≤ MaxBufferedBody

/-- The request asks for `100 Continue`. -/
def HttpConnection.expectsContinue (c : HttpConnection) : Bool :=
  QByteArray.toLower ((c.headers.lookup (ascii "expect")).getD []) == ascii "100-continue"

/-- Everything written to the socket by the time the request has been handed out. -/
def Handler.transcript (h : Handler) (c : HttpConnection) : List Message :=
  (if c.expectsContinue then [.continue100] else []) ++
    h.answer.toList.map fun a => .response ⟨a.status, a.contentType, [], a.payload⟩

/-! ## Reading the head -/

section
variable [Qt]

/-- What `readHead` makes of a head does not depend on the buffer and the timers. -/
theorem readHead_buffer (head b : QByteArray) (t : Option Nat) (c : HttpConnection) :
    Port.readHead head { c with buffer := b, idleTimer := t } =
      ({ (Port.readHead head c).1 with buffer := b, idleTimer := t }, (Port.readHead head c).2) := by
  unfold Port.readHead
  split
  · rfl
  · split
    · simp only
      split <;> rfl
    · rfl

/-- What a head that is accepted leaves as it was. -/
theorem readHead_frame {head : QByteArray} {c c' : HttpConnection}
    (h : Port.readHead head c = (c', true)) :
    { c' with method := c.method, path := c.path, query := c.query, headers := c.headers,
              headerDeadline := c.headerDeadline, chunked := c.chunked,
              contentLength := c.contentLength } = c := by
  unfold Port.readHead at h
  split at h
  · simp at h
  · split at h
    · simp only at h
      split at h
      · simp only [Prod.mk.injEq, and_true] at h
        rw [← h]
        rfl
      · simp at h
    · simp at h

/-- A request as a peer may send it to a new connection: a head of bounded size that is accepted,
and a body framed by it for which the handler has room. A preflight has no body to speak of. -/
structure Request (h : Handler) where
  start : HttpConnection
  head : QByteArray
  parsed : HttpConnection
  wire : QByteArray
  body : QByteArray
  fresh : ∃ now address certificate, start = .accepted now address certificate
  closes : Closes (crlf ++ crlf) head
  short : head.length + 4 ≤ MaxHeadSize
  read : Port.readHead head start = (parsed, true)
  notOptions : parsed.method ≠ str "OPTIONS"
  framed : Framed parsed wire body
  room : h.Room body.length

/-- The request on the wire. -/
def Request.bytes {h : Handler} (q : Request h) : QByteArray := q.head ++ (crlf ++ crlf) ++ q.wire

/-! ## The stages -/

variable {h : Handler} (q : Request h) (extra : QByteArray)

/-- Nothing but `100 Continue` has been written, and an answer would go out. -/
structure Unanswered (c : HttpConnection) : Prop where
  sent : c.sent = if q.parsed.expectsContinue then [.continue100] else []
  extraHeaders : c.extraHeaders = []
  connected : c.connected = true
  hangsUp : c.hangsUp = false

theorem Unanswered.of_frame {q : Request h} {c c' : HttpConnection} (hu : Unanswered q c)
    (hf : c'.frame = c.frame) : Unanswered q c' where
  sent := Eq.trans (by have := congrArg HttpConnection.sent hf; exact this) hu.sent
  extraHeaders := Eq.trans (by have := congrArg HttpConnection.extraHeaders hf; exact this) hu.extraHeaders
  connected := Eq.trans (by have := congrArg HttpConnection.connected hf; exact this) hu.connected
  hangsUp := Eq.trans (by have := congrArg HttpConnection.hangsUp hf; exact this) hu.hangsUp

/-- How far a connection is that has `unread` and what it holds of the request still before it. -/
inductive Stage (unread : QByteArray) (r : Recorder) : Prop
  | head (b : QByteArray) (t : Option Nat) :
      r = .new { q.start with buffer := b, idleTimer := t } →
      b ++ unread = q.head ++ (crlf ++ crlf) ++ (q.wire ++ extra) → b.length < q.head.length + 4 →
      Stage unread r
  | body (wire' todo' : QByteArray) : Reading (host h) Owes r wire' todo' unread extra →
      unread ≠ [] → r.delivered ++ todo' = q.body → r.seen = (1, 0) → Unanswered q r.conn →
      Stage unread r
  | done : r.conn.bodyComplete = true → r.delivered = q.body → r.seen = (1, 1) →
      r.conn.sent = h.transcript q.parsed → Stage unread r

variable {q extra} {unread : QByteArray}

omit [Qt] in
theorem delivered_eq (r : Recorder) : (host h).delivered Recorder.sunk r = r.delivered := rfl

/-- The handler gets the request and answers it, if it does. -/
theorem Stage.finish {r : Recorder} (hstate : r.conn.state = .readingBody)
    (hcomplete : r.conn.bodyComplete = false) (hdel : r.delivered = q.body) (hseen : r.seen = (1, 0))
    (hu : Unanswered q r.conn) : Stage q extra unread ((host h).finishBody r) := by
  obtain ⟨conn, headersSeen, requestsSeen, sunk⟩ := r
  obtain ⟨hs1, hs2, hs3, hs4⟩ := hu
  simp only [Recorder.seen, Prod.mk.injEq] at hseen hstate hcomplete hs1 hs2 hs3 hs4
  obtain ⟨rfl, rfl⟩ := hseen
  rcases ha : h.answer with - | a
  · refine .done ?_ (Eq.trans ?_ hdel) ?_ ?_ <;>
      simp [Host.finishBody, host, port, hcomplete, ha, Port.modify, Recorder.seen, hs1,
        Recorder.delivered, Handler.transcript]
  · refine .done ?_ (Eq.trans ?_ hdel) ?_ ?_ <;>
      simp [Host.finishBody, host, port, hcomplete, ha, Port.modify, Port.respond, Port.transmit, hstate, hs1, hs2,
        hs3, hs4, Recorder.seen, Recorder.delivered, Handler.transcript]

theorem Stage.consume {r : Recorder} (wire' todo' : QByteArray)
    (hr : Reading (host h) Owes r wire' todo' unread extra) (hdel : r.delivered ++ todo' = q.body)
    (hseen : r.seen = (1, 0)) (hu : Unanswered q r.conn) :
    Stage q extra unread ((host h).consumeBody r) := by
  have hrun := consumeBody_reading (host_quiet h) hr
  generalize (host h).consumeBody r = r' at hrun
  cases hrun with
  | stuck _ wire₂ todo₂ data htodo htook h₂ hne =>
    refine .body wire₂ todo₂ h₂ hne ?_ (htook.kept_eq.trans hseen) (hu.of_frame htook.frame)
    rw [← delivered_eq (h := h), htook.delivered, List.append_assoc, ← htodo]
    exact hdel
  | complete s' htook =>
    refine .finish (htook.state.trans hr.state) (htook.bodyComplete.trans hr.bodyComplete) ?_
      (htook.kept_eq.trans hseen) (hu.of_frame htook.frame)
    rw [← delivered_eq (h := h), htook.delivered]
    exact hdel

/-- The fields of a new connection that its head does not change. -/
theorem Request.parsed_fresh (q : Request h) :
    q.parsed.state = .readingHeaders ∧ q.parsed.body = [] ∧ q.parsed.bodyReceived = 0 ∧
    q.parsed.sink = none ∧ q.parsed.trailerBytes = 0 ∧ q.parsed.chunkState = .chunkSize ∧
    q.parsed.bodyComplete = false ∧ q.parsed.sent = [] ∧ q.parsed.extraHeaders = [] ∧
    q.parsed.connected = true ∧ q.parsed.hangsUp = false := by
  obtain ⟨now, address, certificate, hstart⟩ := q.fresh
  have hf := readHead_frame q.read
  rw [hstart] at hf
  have field : ∀ {β : Type} (f : HttpConnection → β), f _ = f _ := fun f => congrArg f hf
  exact ⟨field (·.state), field (·.body), field (·.bodyReceived), field (·.sink),
    field (·.trailerBytes), field (·.chunkState), field (·.bodyComplete), field (·.sent),
    field (·.extraHeaders), field (·.connected), field (·.hangsUp)⟩

omit [Qt] in
/-- A decoder at the start of a body owes all of it. -/
theorem Framed.owes {c c' : HttpConnection} {wire body : QByteArray} (hf : Framed c wire body)
    (hch : c'.chunked = c.chunked) (hcl : c'.contentLength = c.contentLength)
    (hst : c'.chunkState = .chunkSize) (htr : c'.trailerBytes = 0) (hrec : c'.bodyReceived = 0) :
    Owes c' wire body := by
  cases hf with
  | sized _ h1 h2 =>
    rw [Owes, hch, h1]
    exact ⟨rfl, by rw [hcl, h2, hrec]; omega⟩
  | chunked b h1 h2 =>
    rw [Owes, hch, if_pos h1]
    exact .size b hst (by rw [htr]; omega)

omit [Qt] in
/-- The declared length of a body is its length, or not known. -/
theorem Framed.contentLength_le {c : HttpConnection} {wire body : QByteArray}
    (hf : Framed c wire body) (hunknown : c.chunked = true → c.contentLength = -1) :
    c.contentLength ≤ body.length := by
  cases hf with
  | sized _ _ h2 => omega
  | chunked b h1 _ => rw [hunknown h1]; omega

theorem readHead_chunked {head : QByteArray} {c c' : HttpConnection}
    (h : Port.readHead head c = (c', true)) (hch : c'.chunked = true) : c'.contentLength = -1 := by
  unfold Port.readHead at h
  split at h
  · simp at h
  · split at h
    · simp only at h
      split at h
      · simp only [Prod.mk.injEq, and_true] at h
        rw [← h] at hch ⊢
        simp only [Port.setFraming] at hch ⊢
        rw [if_pos hch]
      · simp at h
    · simp at h

/-- Once the head is in, the handler says where the body goes, and what is there of it is read. -/
theorem Stage.begin {b : QByteArray} {t : Option Nat} (hb : b ++ unread = q.wire ++ extra) :
    Stage q extra unread
      ((host h).beginBody (.new { q.parsed with buffer := b, idleTimer := t })) := by
  obtain ⟨-, hbody, hrec, hsink, htr, hst, hcomp, hsent, hextra, hconn, hhang⟩ := q.parsed_fresh
  have hlen := q.framed.contentLength_le (readHead_chunked q.read)
  obtain ⟨hrange, hroom⟩ := q.room
  obtain ⟨c, hc⟩ : ∃ c, c = { q.parsed with
      buffer := b
      idleTimer := t
      state := .readingBody
      sink := h.sinkMax.map fun _ => 0
      maxBodyBytes := h.sinkMax.getD q.parsed.maxBodyBytes
      sent := if q.parsed.expectsContinue then [.continue100] else [] } := ⟨_, rfl⟩
  have hrun : (host h).beginBody (.new { q.parsed with buffer := b, idleTimer := t }) =
      (host h).consumeBody ⟨c, 1, 0, []⟩ := by
    have hm : q.parsed.method ≠ str "OPTIONS" := q.notOptions
    have hready : (host h).headersReady
        ⟨{ q.parsed with buffer := b, idleTimer := t, state := .readingBody }, 0, 0, []⟩ =
        ⟨{ q.parsed with
          buffer := b
          idleTimer := t
          state := .readingBody
          sink := h.sinkMax.map fun _ => 0
          maxBodyBytes := h.sinkMax.getD q.parsed.maxBodyBytes }, 1, 0, []⟩ := by
      rcases hh : h.sinkMax with - | maxBytes
      · simp [host, hh, hsink]
      · rw [hh] at hroom
        have : ¬ (maxBytes ≥ 0 ∧ q.parsed.contentLength > maxBytes) := by
          simp only at hroom
          omega
        simp [host, hh, Port.streamBodyTo, port, Port.modify, this]
    simp only [Host.beginBody, Recorder.new, host_modify, host_get, hm, if_false, hready, ne_eq,
      not_true_eq_false, hc, HttpConnection.expectsContinue, beq_iff_eq]
    by_cases hx : QByteArray.toLower ((q.parsed.headers.lookup (ascii "expect")).getD []) =
        ascii "100-continue"
    · simp only [hx, if_true, hsent, List.nil_append]
    · simp only [hx, if_false, hsent]
  rw [hrun]
  refine Stage.consume q.wire q.body ⟨?_, ?_, ?_, ?_, ?_, ?_⟩ ?_ rfl
    ⟨?_, ?_, ?_, ?_⟩ <;> subst hc
  · rfl
  · exact hcomp
  · exact q.framed.owes rfl rfl hst htr hrec
  · exact hb
  · rcases hh : h.sinkMax with - | maxBytes
    · rw [hh] at hroom
      simpa [HttpConnection.Fits, host, port, hh, hbody] using hroom
    · rw [hh] at hroom
      simpa [HttpConnection.Fits, host, port, hh, hrec] using hroom
  · change q.parsed.bodyReceived + _ < _
    rw [hrec, Nat.zero_add]
    exact hrange
  · simp [Recorder.delivered, hbody]
  · rfl
  · exact hextra
  · exact hconn
  · exact hhang

/-! ## Reading a segment, and all of them -/

/-- Bytes that do not complete the head, or that do. -/
theorem Stage.read_head {data b : QByteArray} {t : Option Nat}
    (hb : b ++ (data ++ unread) = q.head ++ (crlf ++ crlf) ++ (q.wire ++ extra)) :
    Stage q extra unread
      ((host h).onReadyRead data (.new { q.start with buffer := b, idleTimer := t })) := by
  obtain ⟨now, address, certificate, hstart⟩ := q.fresh
  have hstate : q.start.state = .readingHeaders := by rw [hstart]; rfl
  have hcomplete : q.start.bodyComplete = false := by rw [hstart]; rfl
  have hshort := q.short
  rw [← List.append_assoc] at hb
  simp only [Host.onReadyRead, Recorder.new, host_modify, host_get, hstate, hcomplete, reduceCtorEq,
    Bool.false_eq_true, or_self, if_false, if_true]
  rcases q.closes.cut hb with ⟨hlt, hnone, hne⟩ | ⟨hle, hsome, htake, hdrop⟩
  · have hlen : ¬ (b ++ data).length > MaxHeadSize := by
      have : (crlf ++ crlf).length = 4 := rfl
      omega
    simp only [hnone, hlen, if_false]
    exact .head (b ++ data) (some (q.start.now + q.start.idleInterval))
      (by simp only [Recorder.new, hstate, hcomplete]) hb hlt
  · simp only [hsome, htake]
    have hp : ∀ (b : QByteArray) (t : Option Nat),
        (host h).parseHead q.head (.new { q.start with buffer := b, idleTimer := t }) =
          (true, .new { q.parsed with buffer := b, idleTimer := t }) := by
      intro b t
      simp only [Port.parseHead, Recorder.new, host_get, readHead_buffer, q.read, if_true]
      rfl
    simp only [Recorder.new, hstate, hcomplete] at hp
    rw [hp]
    exact Stage.begin hdrop

theorem Stage.read {data : QByteArray} {r : Recorder} (hs : Stage q extra (data ++ unread) r) :
    Stage q extra unread ((host h).onReadyRead data r) := by
  cases hs with
  | head b t hr hb hlt => exact hr ▸ Stage.read_head hb
  | body wire' todo' hr hne hdel hseen hu =>
    have hstate := hr.state
    have hcomplete := hr.bodyComplete
    simp only [host_get] at hstate hcomplete
    simp only [Host.onReadyRead, host_modify, host_get, hstate, hcomplete, reduceCtorEq,
      Bool.false_eq_true, or_self, if_false]
    refine Stage.consume wire' todo' ⟨rfl, rfl, ?_, ?_, hr.fits,
      hr.range⟩ hdel hseen ⟨hu.sent, hu.extraHeaders, hu.connected, hu.hangsUp⟩
    · exact Owes.congr hr.owes rfl rfl rfl rfl rfl rfl
    · rw [← hr.bytes, ← List.append_assoc]
      rfl
  | done hcomp hdel hseen hsent =>
    have hrun : (host h).onReadyRead data r = { r with conn := { r.conn with
        idleTimer := some (r.conn.now + r.conn.idleInterval) } } := by
      simp [Host.onReadyRead, host, port, Port.modify, hcomp]
    rw [hrun]
    exact .done hcomp hdel hseen hsent

theorem reads_concat (h : Handler) (segments : List QByteArray) (data : QByteArray) (r : Recorder) :
    reads h (segments ++ [data]) r = (host h).onReadyRead data (reads h segments r) := by
  rw [reads, List.foldl_append]
  rfl

theorem Stage.reads : ∀ (segments : List QByteArray) {r : Recorder},
    Stage q extra (segments.flatten ++ unread) r → Stage q extra unread (reads h segments r)
  | [], _, hs => hs
  | data :: segments, _, hs => by
    rw [List.flatten_cons, List.append_assoc] at hs
    exact Stage.reads segments hs.read

/-- However a request and whatever follows it is cut into segments, each signal fires once, the
handler gets exactly the body, and only the handler's answer goes out. -/
theorem Request.decodes_segments (q : Request h) (extra : QByteArray) {segments : List QByteArray}
    (hseg : segments.flatten = q.bytes ++ extra) :
    (reads h segments (.new q.start)).headersSeen = 1 ∧
    (reads h segments (.new q.start)).requestsSeen = 1 ∧
    (reads h segments (.new q.start)).delivered = q.body ∧
    (reads h segments (.new q.start)).conn.sent = h.transcript q.parsed := by
  have h0 : Stage q extra (segments.flatten ++ []) (.new q.start) := by
    obtain ⟨now, address, certificate, hstart⟩ := q.fresh
    refine .head [] q.start.idleTimer ?_ ?_ (by simp)
    · rw [hstart]; rfl
    · rw [List.nil_append, List.append_nil, hseg, Request.bytes, List.append_assoc]
  have hend := Stage.reads segments h0
  generalize Recorder.reads h segments (.new q.start) = r at hend
  cases hend with
  | head b t _ hb hlt =>
    have := congrArg List.length hb
    have hc : (crlf ++ crlf).length = 4 := rfl
    rw [List.append_nil, List.length_append, List.length_append, hc] at this
    omega
  | body _ _ _ hne => exact absurd rfl hne
  | done _ hdel hseen hsent =>
    simp only [Recorder.seen, Prod.mk.injEq] at hseen
    exact ⟨hseen.1, hseen.2, hdel, hsent⟩

/-- A trailer that reaches the bound on the head is refused at the blank line after it, whose line
end counts as well. -/
theorem onReadyRead_longTrailer (h : Handler) {r : Recorder} (t : Trailer)
    (hr : r.conn.state = .readingBody ∧ r.conn.bodyComplete = false ∧ r.conn.chunked = true ∧
      r.conn.chunkState = .chunkTrailer ∧ r.conn.buffer = [] ∧ r.conn.trailerBytes = 0)
    (hopen : r.conn.connected = true ∧ r.conn.hangsUp = false ∧ r.conn.extraHeaders = [])
    (hlen : t.line.length + 2 = MaxHeadSize) :
    ((host h).onReadyRead (t.line ++ crlf ++ crlf) r).seen = r.seen ∧
    ((host h).onReadyRead (t.line ++ crlf ++ crlf) r).conn.sent =
      r.conn.sent ++ [.response ⟨431, jsonType, [], []⟩] := by
  obtain ⟨h1, h2, h3, h4, h5, h6⟩ := hr
  obtain ⟨h7, h8, h9⟩ := hopen
  have hline : indexOf crlf (t.line ++ crlf ++ crlf) = some t.line.length := t.closes.first crlf
  have hblank : indexOf crlf crlf = some 0 := closes_nil crlf
  have hne : t.line.length ≠ 0 := fun h0 => t.nonempty (List.length_eq_zero_iff.1 h0)
  have hdrop : (t.line ++ crlf ++ crlf).drop (t.line.length + 2) = crlf := by
    have : t.line.length + 2 = (t.line ++ crlf).length := by simp [crlf]
    rw [this, List.drop_left]
  rw [hlen] at hdrop
  have hover : MaxHeadSize < MaxHeadSize + 2 := by decide
  obtain ⟨n, hn⟩ : ∃ n, 2 * (t.line ++ crlf ++ crlf).length + 2 = n + 1 + 1 := ⟨_, rfl⟩
  have hturns : ∀ c : HttpConnection, c.chunkState = .chunkTrailer → c.trailerBytes = 0 →
      c.buffer = t.line ++ crlf ++ crlf →
      (host h).consumeChunkedBody (n + 1 + 1) { r with conn := c } =
        (host h).fail 431 { r with conn := { c with
          buffer := crlf
          trailerBytes := MaxHeadSize + 2 } } := by
    intro c hc1 hc2 hc3
    simp only [Host.consumeChunkedBody, Host.chunkTurn, host_get, host_modify, hc1, hc2, hc3, hline,
      Nat.zero_add, hlen, gt_iff_lt, Nat.lt_irrefl, if_false, hne, hdrop, hblank, hover, if_true]
  simp only [Host.onReadyRead, Host.consumeBody, host_get, host_modify, h1, h2, h3, h5,
    List.nil_append, reduceCtorEq, Bool.false_eq_true, or_self, if_false, ne_eq, not_true_eq_false,
    if_true, hn]
  rw [hturns]
  · simp [Port.fail, Port.respond, Port.transmit, host_get, host_modify, h7, h8, h9, Recorder.seen]
  · exact h4
  · exact h6
  · rfl

end

/-! ## A request, and two at the bounds -/

section

local instance plainQt : Qt := Ascii.qt [] []

/-- A handler that streams at most five bytes and answers 200. -/
def fiveBytes : Handler := ⟨some 5, some ⟨200, [], []⟩⟩

def peer : HttpConnection := .accepted 0 (str "10.0.0.2") none

def chunkedHead : QByteArray := ascii "POST /x HTTP/1.1\x0d\nTransfer-Encoding: chunked"

/-- `hello` in two chunks, with a leading zero, an extension and a trailer line. -/
def helloChunks : ChunkedBody where
  chunks := [
    ⟨ascii "hel", by decide, ⟨ascii "03", ascii ";a=b", by decide, by decide, by decide, by decide,
      by decide, by decide⟩⟩,
    ⟨ascii "lo", by decide, ⟨ascii "2", [], by decide, by decide, by decide, by decide,
      by decide, by decide⟩⟩]
  last := ⟨ascii "0", [], by decide, by decide, by decide, by decide, by decide, by decide⟩
  trailers := [⟨ascii "T: 1", by decide, by decide⟩]

def helloRequest : Request fiveBytes where
  start := peer
  head := chunkedHead
  parsed := (Port.readHead chunkedHead peer).1
  wire := helloChunks.bytes
  body := helloChunks.payload
  fresh := ⟨_, _, _, rfl⟩
  closes := by decide +kernel
  short := by decide +kernel
  read := Prod.ext rfl (by decide +kernel)
  notOptions := by decide +kernel
  framed := .chunked helloChunks (by decide +kernel) (by decide +kernel)
  room := ⟨by decide, .inr (by decide)⟩

theorem helloRequest_decodes :
    (reads fiveBytes [helloRequest.bytes.take 9, helloRequest.bytes.drop 9 ++ [0]]
      (.new peer)).delivered = ascii "hello" :=
  (helloRequest.decodes_segments [0] (by simp [← List.append_assoc])).2.2.1

/-- A trailer line that with its line end has as many bytes as a head may have. -/
def longLine : QByteArray := List.replicate (MaxHeadSize - 2) 120

theorem longLine_length : longLine.length = MaxHeadSize - 2 := List.length_replicate

def longTrailer : Trailer where
  line := longLine
  nonempty h := by
    have := longLine_length
    rw [h] at this
    exact absurd this (by decide)
  closes := closes_crlf fun h => absurd (List.eq_of_mem_replicate h) (by decide)

def longTrailerBody : ChunkedBody where
  chunks := []
  last := ⟨ascii "0", [], by decide, by decide, by decide, by decide, by decide, by decide⟩
  trailers := [longTrailer]

theorem longTrailer_line : longTrailer.line.length + 2 = MaxHeadSize := by
  rw [longTrailer, longLine_length]
  decide

/-- A preflight is answered before its headers are handed out, and a trailer of the full size of a
head is refused with 431: neither request is handed out. -/
theorem preflight_and_longTrailer :
    (let head := ascii "OPTIONS /x HTTP/1.1\x0d\nContent-Length: 5"
     Closes (crlf ++ crlf) head ∧ head.length + 4 ≤ MaxHeadSize ∧
       (Port.readHead head peer).2 = true ∧ (Port.readHead head peer).1.contentLength = 5 ∧
       (reads fiveBytes [head ++ (crlf ++ crlf) ++ ascii "hello"] (.new peer)).seen = (0, 0)) ∧
    (longTrailerBody.trailerBytes.length = MaxHeadSize ∧
       ∃ segments : List QByteArray,
         segments.flatten = chunkedHead ++ (crlf ++ crlf) ++ longTrailerBody.bytes ∧
         (reads fiveBytes segments (.new peer)).seen = (1, 0) ∧
         (reads fiveBytes segments (.new peer)).conn.sent = [.response ⟨431, jsonType, [], []⟩]) := by
  refine ⟨by decide +kernel, ?_, [chunkedHead ++ (crlf ++ crlf) ++ (ascii "0" ++ crlf)] ++
    [longTrailer.line ++ crlf ++ crlf], ?_, ?_⟩
  · have := longTrailer_line
    generalize hn : MaxHeadSize = n at this ⊢
    simp [ChunkedBody.trailerBytes, longTrailerBody, Trailer.bytes, crlf, ← this]
  · simp [ChunkedBody.bytes, ChunkedBody.trailerBytes, longTrailerBody, Trailer.bytes,
      SizeLine.bytes]
  · obtain ⟨r, hr⟩ : ∃ r, r = reads fiveBytes [chunkedHead ++ (crlf ++ crlf) ++ (ascii "0" ++ crlf)]
        (.new peer) := ⟨_, rfl⟩
    have hlast := onReadyRead_longTrailer fiveBytes (r := r) longTrailer
      (by subst hr; decide +kernel) (by subst hr; decide +kernel) longTrailer_line
    have hseen : r.seen = (1, 0) ∧ r.conn.sent = [] := by subst hr; decide +kernel
    rw [reads_concat, ← hr, hlast.1, hlast.2, hseen.1, hseen.2]
    exact ⟨rfl, rfl⟩

end

end LocalSend
