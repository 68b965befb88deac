import LocalSend.Core.Crypto
import Mathlib.Data.List.AList

/-!
# One HTTP request

`HttpConnection` as a record, and its functions as the class has them. A connection emits signals
whose slots run before the emitting function goes on, and a slot may answer the very request that
is being read; so each function works on the whole state `σ` of its surroundings. `Port σ` is what
the functions need of it: where the connection is kept in it, and the slots of `closed()`. `Host σ`
adds the slots of the other signals and the device behind `m_sink`.

The socket is part of the record: `connected` is `state() == ConnectedState`, `sent` what has been
written to it. Whether writing an answer takes the socket down before `respond` returns (the peer
is gone, or everything is flushed at once) is up to the network: `hangsUp`. The timers hold the
time they fire at, on the clock `now`; starting one with an interval changes the interval of the
later starts (`idleInterval`).
-/

set_option autoImplicit false

namespace LocalSend

def MaxHeadSize : Nat := 32 * 1024
def MaxBufferedBody : Nat := 16 * 1024 * 1024
def IdleTimeoutMs : Nat := 60 * 1000
def DrainTimeoutMs : Nat := 5 * 1000
def HeaderDeadlineMs : Nat := 30 * 1000
/-- What `readAll` returns at most. -/
def SocketReadBuffer : Nat := 256 * 1024

def reasonPhrase (status : Nat) : QByteArray :=
  match status with
  | 100 => ascii "Continue"
  | 200 => ascii "OK"
  | 204 => ascii "No Content"
  | 400 => ascii "Bad Request"
  | 401 => ascii "Unauthorized"
  | 403 => ascii "Forbidden"
  | 404 => ascii "Not Found"
  | 405 => ascii "Method Not Allowed"
  | 408 => ascii "Request Timeout"
  | 409 => ascii "Conflict"
  | 413 => ascii "Payload Too Large"
  | 429 => ascii "Too Many Requests"
  | 431 => ascii "Request Header Fields Too Large"
  | 500 => ascii "Internal Server Error"
  | _ => ascii "Unknown"

/-- The files a connection may be told to stream its body to. -/
abbrev FileId := Nat

inductive State | readingHeaders | readingBody | responded
  deriving DecidableEq

inductive ChunkState | chunkSize | chunkData | chunkCrlf | chunkTrailer | chunkDone
  deriving DecidableEq

structure Response where
  status : Nat
  contentType : QByteArray
  extraHeaders : List (QByteArray × QByteArray)
  payload : QByteArray
  deriving DecidableEq

/-- What a connection writes to its socket. -/
inductive Message | continue100 | response (r : Response)
  deriving DecidableEq

def Response.bytes (r : Response) : QByteArray :=
  ascii "HTTP/1.1 " ++ QByteArray.number r.status ++ ascii " " ++ reasonPhrase r.status ++ crlf
    ++ (if r.contentType = [] then [] else ascii "Content-Type: " ++ r.contentType ++ crlf)
    ++ ascii "Content-Length: " ++ QByteArray.number r.payload.length ++ crlf
    ++ r.extraHeaders.flatMap (fun h => h.1 ++ ascii ": " ++ h.2 ++ crlf)
    ++ ascii "Access-Control-Allow-Origin: *" ++ crlf
    ++ ascii "Access-Control-Allow-Methods: GET, POST, OPTIONS" ++ crlf
    ++ ascii "Access-Control-Allow-Headers: Content-Type" ++ crlf
    ++ ascii "Connection: close" ++ crlf ++ crlf
    ++ r.payload

def Message.response? : Message → Option Response
  | .continue100 => none
  | .response r => some r

def Message.bytes : Message → QByteArray
  | .continue100 => ascii "HTTP/1.1 100 Continue" ++ crlf ++ crlf
  | .response r => r.bytes

def jsonType : QByteArray := ascii "application/json"

structure HttpConnection where
  connected : Bool
  sent : List Message
  hangsUp : Bool
  now : Nat
  idleTimer : Option Nat
  idleInterval : Nat
  headerDeadline : Option Nat
  state : State
  buffer : QByteArray
  method : QString
  path : QString
  query : AList fun _ : QString => QString
  headers : AList fun _ : QByteArray => QByteArray
  extraHeaders : List (QByteArray × QByteArray)
  body : QByteArray
  sink : Option FileId
  maxBodyBytes : Int
  contentLength : Int
  bodyReceived : Nat
  chunked : Bool
  chunkState : ChunkState
  chunkRemaining : Nat
  trailerBytes : Nat
  bodyComplete : Bool
  peerAddress : QString
  peerCertificate : Option QByteArray
  closedEmitted : Bool

/-- A connection as its constructor leaves it, for a socket with this peer. -/
def HttpConnection.accepted (now : Nat) (address : QString) (certificate : Option QByteArray) :
    HttpConnection where
  connected := true
  sent := []
  hangsUp := false
  now := now
  idleTimer := some (now + IdleTimeoutMs)
  idleInterval := IdleTimeoutMs
  headerDeadline := some (now + HeaderDeadlineMs)
  state := .readingHeaders
  buffer := []
  method := []
  path := []
  query := ∅
  headers := ∅
  extraHeaders := []
  body := []
  sink := none
  maxBodyBytes := -1
  contentLength := 0
  bodyReceived := 0
  chunked := false
  chunkState := .chunkSize
  chunkRemaining := 0
  trailerBytes := 0
  bodyComplete := false
  -- an IPv4 peer of the dual-stack listener is spelled ::ffff:a.b.c.d
  peerAddress := if (str "::ffff:").isPrefixOf address then address.drop 7 else address
  peerCertificate := certificate
  closedEmitted := false

namespace HttpConnection

def hasResponded (c : HttpConnection) : Bool := c.state == .responded

/-- The answers that were written, 100 Continue apart. -/
def responses (c : HttpConnection) : List Response := c.sent.filterMap Message.response?

def queryValue (c : HttpConnection) (key : QString) : QString := (c.query.lookup key).getD []

def header (c : HttpConnection) (name : QByteArray) : QByteArray :=
  (c.headers.lookup (QByteArray.toLower name)).getD []

def jsonBody [Qt] (c : HttpConnection) : QJsonObject := (Qt.fromJson c.body).getD []

/-- CR and LF never reach a header line. -/
def addHeader (c : HttpConnection) (name value : QByteArray) : HttpConnection :=
  let safe (s : QByteArray) := s.filter fun b => b != 13 && b != 10
  { c with extraHeaders := c.extraHeaders ++ [(safe name, safe value)] }

end HttpConnection

/-- Where a connection lives, and who hears that it closed. -/
structure Port (σ : Type) where
  get : σ → HttpConnection
  set : HttpConnection → σ → σ
  closed : σ → σ
  get_set : ∀ c s, get (set c s) = c
  set_get : ∀ s, set (get s) s = s
  set_set : ∀ c d s, set c (set d s) = set c s

/-- A port, the other slots, and the device the body is streamed to: `write` says how many of the
bytes it took. -/
structure Host (σ : Type) extends Port σ where
  headersReady : σ → σ
  requestReady : σ → σ
  bodyProgress : σ → σ
  write : FileId → QByteArray → σ → Nat × σ

namespace Port

variable {σ : Type} (P : Port σ)

attribute [simp] Port.get_set Port.set_get Port.set_set

def modify (f : HttpConnection → HttpConnection) (s : σ) : σ := P.set (f (P.get s)) s

@[simp] theorem get_modify (f : HttpConnection → HttpConnection) (s : σ) :
    P.get (P.modify f s) = f (P.get s) := by simp [modify]

@[simp] theorem modify_modify (f g : HttpConnection → HttpConnection) (s : σ) :
    P.modify g (P.modify f s) = P.modify (fun c => g (f c)) s := by simp [modify]

@[simp] theorem set_modify (f : HttpConnection → HttpConnection) (c : HttpConnection) (s : σ) :
    P.set c (P.modify f s) = P.set c s := by simp [modify]

def onDisconnected (s : σ) : σ :=
  if (P.get s).closedEmitted then s
  else P.closed (P.modify (fun c => { c with closedEmitted := true, state := .responded }) s)

/-- The socket goes down: `disconnected()` is emitted. -/
def hangUp (s : σ) : σ := P.onDisconnected (P.modify (fun c => { c with connected := false }) s)

/-- Writes the answer of a connection that is already marked as answered. -/
def transmit (status : Nat) (payload contentType : QByteArray) (s : σ) : σ :=
  if (P.get s).connected then
    let s := P.modify (fun c =>
      { c with sent := c.sent ++ [.response ⟨status, contentType, c.extraHeaders, payload⟩] }) s
    let s := if (P.get s).hangsUp then P.hangUp s else s
    if (P.get s).bodyComplete then P.modify (fun c => { c with connected := false }) s
    else P.modify (fun c => { c with
      idleTimer := some (c.now + DrainTimeoutMs)
      idleInterval := DrainTimeoutMs }) s
  else s

def respond (status : Nat) (payload contentType : QByteArray) (s : σ) : σ :=
  if (P.get s).state = .responded then s
  else P.transmit status payload contentType
    (P.modify (fun c => { c with state := .responded, idleTimer := none }) s)

def fail (status : Nat) (s : σ) : σ := P.respond status [] jsonType s

def respondJson [Qt] (status : Nat) (object : QJsonObject) (s : σ) : σ :=
  P.respond status (Qt.toJson object) jsonType s

def streamBodyTo (sink : FileId) (maxBytes : Int) (s : σ) : σ :=
  let s := P.modify (fun c => { c with sink := some sink, maxBodyBytes := maxBytes }) s
  if maxBytes ≥ 0 ∧ (P.get s).contentLength > maxBytes then P.fail 413 s else s

def onIdleTimeout (s : σ) : σ :=
  let s := P.modify (fun c => { c with idleTimer := none }) s
  if (P.get s).state = .responded then P.hangUp s else P.fail 408 s

def onHeaderDeadline (s : σ) : σ :=
  let s := P.modify (fun c => { c with headerDeadline := none }) s
  if (P.get s).state = .readingHeaders then P.fail 408 s else s

/-! ## The head -/

/-- The header lines in order; `false` when one contradicts an earlier one. -/
def insertHeaders : List QByteArray → (AList fun _ : QByteArray => QByteArray) →
    (AList fun _ : QByteArray => QByteArray) × Bool
  | [], headers => (headers, true)
  | line :: lines, headers =>
    let line := QByteArray.trimmed line
    match QByteArray.indexOfByte line 58 with
    | none | some 0 => insertHeaders lines headers
    | some colon =>
      let name := QByteArray.toLower (QByteArray.trimmed (line.take colon))
      let value := QByteArray.trimmed (line.drop (colon + 1))
      match headers.lookup name with
      | some earlier =>
        if earlier ≠ value then (headers, false)
        else insertHeaders lines (headers.insert name value)
      | none => insertHeaders lines (headers.insert name value)

/-- How the body of a request with these headers is framed. -/
def setFraming (c : HttpConnection) : HttpConnection :=
  let chunked := QByteArray.contains (QByteArray.toLower
    ((c.headers.lookup (ascii "transfer-encoding")).getD [])) (ascii "chunked")
  let declared := QByteArray.toLongLong 10 ((c.headers.lookup (ascii "content-length")).getD [])
  { c with
    headerDeadline := none
    chunked := chunked
    contentLength := if chunked then -1 else
      match declared with
      | some n => if n > 0 then n else 0
      | none => 0 }

/-- The request line and the headers read into the connection; `false` for a head that is refused. -/
def readHead [Qt] (head : QByteArray) (c : HttpConnection) : HttpConnection × Bool :=
  match head.splitOn 10 with
  | [] => (c, false)
  | first :: lines =>
    match (QByteArray.trimmed first).splitOn 32 with
    | method :: target :: _ =>
      let c := { c with
        method := Qt.toUpper (QString.fromLatin1 method)
        path := Qt.urlPath target
        query := (Qt.urlQueryItems target).foldl
          (fun q (item : QString × QString) => q.insert item.1 item.2) c.query }
      let (headers, ok) := insertHeaders lines c.headers
      let c := { c with headers := headers }
      if ok then (setFraming c, true) else (c, false)
    | _ => (c, false)

def parseHead [Qt] (head : QByteArray) (s : σ) : Bool × σ :=
  let (c, ok) := readHead head (P.get s)
  let s := P.set c s
  if ok then (true, s) else (false, P.fail 400 s)

end Port

/-! ## The body -/

namespace Host

variable {σ : Type} (H : Host σ)

/-- Hands decoded bytes to the sink or the buffer; `false` once that failed the request. -/
def deliver (data : QByteArray) (s : σ) : Bool × σ :=
  if data = [] then (true, s)
  else
    let c := H.get s
    let (ok, s) : Bool × σ :=
      match c.sink with
      | some sink =>
        if c.maxBodyBytes ≥ 0 ∧ (c.bodyReceived : Int) + data.length > c.maxBodyBytes then
          (false, H.fail 413 s)
        else
          let (written, s) := H.write sink data s
          if written = data.length then (true, s) else (false, H.fail 500 s)
      | none =>
        if c.body.length + data.length > MaxBufferedBody then (false, H.fail 413 s)
        else (true, H.modify (fun c => { c with body := c.body ++ data }) s)
    if ok then
      (true, H.bodyProgress
        (H.modify (fun c => { c with bodyReceived := c.bodyReceived + data.length }) s))
    else (false, s)

def finishBody (s : σ) : σ :=
  if (H.get s).bodyComplete then s
  else H.requestReady
    (H.modify (fun c => { c with bodyComplete := true, idleTimer := none, buffer := [] }) s)

/-- The loop over a body of known length; every pass takes at least a byte off the buffer, whose
length bounds the passes. `false` when a block could not be delivered. -/
def consumeSized : Nat → σ → Bool × σ
  | 0, s => (true, s)
  | n + 1, s =>
    let c := H.get s
    if (c.bodyReceived : Int) < c.contentLength ∧ c.buffer ≠ [] then
      let take := min (c.contentLength - c.bodyReceived).toNat c.buffer.length
      let (ok, s) := H.deliver (c.buffer.take take)
        (H.modify (fun c => { c with buffer := c.buffer.drop take }) s)
      if ok then consumeSized n s else (false, s)
    else (true, s)

/-- The size a chunk-size line states, an extension after a semicolon left aside. -/
def sizeOfLine (sizeLine : QByteArray) : Option Int :=
  let sizeLine := match QByteArray.indexOfByte sizeLine 59 with
    | some extension => sizeLine.take extension
    | none => sizeLine
  QByteArray.toLongLong 16 (QByteArray.trimmed sizeLine)

/-- One turn of the chunk decoder: `true` when the loop goes round again. -/
def chunkTurn (s : σ) : Bool × σ :=
  let c := H.get s
  match c.chunkState with
  | .chunkSize =>
    match Lib.indexOf crlf c.buffer with
    | none => if c.buffer.length > MaxHeadSize then (false, H.fail 400 s) else (false, s)
    | some eol =>
      let sizeLine := c.buffer.take eol
      let s := H.modify (fun c => { c with buffer := c.buffer.drop (eol + 2) }) s
      match sizeOfLine sizeLine with
      | none => (false, H.fail 400 s)
      | some n =>
        if n < 0 then (false, H.fail 400 s)
        else (true, H.modify (fun c => { c with
          chunkRemaining := n.toNat
          chunkState := if n = 0 then .chunkTrailer else .chunkData }) s)
  | .chunkData =>
    if c.buffer = [] then (false, s)
    else
      let take := min c.chunkRemaining c.buffer.length
      let (ok, s) := H.deliver (c.buffer.take take) (H.modify (fun c => { c with
        buffer := c.buffer.drop take
        chunkRemaining := c.chunkRemaining - take }) s)
      if ok then
        (true, if (H.get s).chunkRemaining = 0 then
          H.modify (fun c => { c with chunkState := .chunkCrlf }) s else s)
      else (false, s)
  | .chunkCrlf =>
    if c.buffer.length < 2 then (false, s)
    else (true, H.modify (fun c => { c with
      buffer := c.buffer.drop 2
      chunkState := .chunkSize }) s)
  | .chunkTrailer =>
    match Lib.indexOf crlf c.buffer with
    | none => (false, s)
    | some eol =>
      let s := H.modify (fun c => { c with trailerBytes := c.trailerBytes + (eol + 2) }) s
      if (H.get s).trailerBytes > MaxHeadSize then (false, H.fail 431 s)
      else
        let s := H.modify (fun c => { c with buffer := c.buffer.drop (eol + 2) }) s
        if eol = 0 then
          (false, H.finishBody (H.modify (fun c => { c with
            chunkState := .chunkDone
            contentLength := c.bodyReceived }) s))
        else (true, s)
  | .chunkDone => (false, s)

/-- The decoder's loop. Two turns take at least a byte off the buffer, which bounds the turns. -/
def consumeChunkedBody : Nat → σ → σ
  | 0, s => s
  | n + 1, s =>
    match H.chunkTurn s with
    | (true, s) => consumeChunkedBody n s
    | (false, s) => s

def consumeBody (s : σ) : σ :=
  let c := H.get s
  if c.state ≠ .readingBody ∨ c.bodyComplete then s
  else if c.chunked then H.consumeChunkedBody (2 * c.buffer.length + 2) s
  else
    let (ok, s) := H.consumeSized c.buffer.length s
    if ok ∧ ((H.get s).bodyReceived : Int) ≥ (H.get s).contentLength then H.finishBody s else s

/-- What follows the head: the handlers get a say before any of the body is read. -/
def beginBody (s : σ) : σ :=
  let s := H.modify (fun c => { c with state := .readingBody }) s
  if (H.get s).method = str "OPTIONS" then H.respond 204 [] [] s
  else
    let s := H.headersReady s
    if (H.get s).state ≠ .readingBody then s
    else
      let s := if QByteArray.toLower (((H.get s).headers.lookup (ascii "expect")).getD [])
          = ascii "100-continue" then
        H.modify (fun c => { c with sent := c.sent ++ [.continue100] }) s else s
      H.consumeBody s

/-- `readyRead` with `data` waiting in the socket. -/
def onReadyRead [Qt] (data : QByteArray) (s : σ) : σ :=
  let s := H.modify (fun c => { c with idleTimer := some (c.now + c.idleInterval) }) s
  if (H.get s).state = .responded ∨ (H.get s).bodyComplete then s
  else
    let s := H.modify (fun c => { c with buffer := c.buffer ++ data }) s
    if (H.get s).state = .readingHeaders then
      match Lib.indexOf (crlf ++ crlf) (H.get s).buffer with
      | none => if (H.get s).buffer.length > MaxHeadSize then H.fail 431 s else s
      | some fin =>
        let head := (H.get s).buffer.take fin
        let s := H.modify (fun c => { c with buffer := c.buffer.drop (fin + 4) }) s
        let (ok, s) := H.parseHead head s
        if ok then H.beginBody s else s
    else H.consumeBody s

/-- The host with nothing connected to `requestReady`. -/
abbrev mute : Host σ := { H with requestReady := id }

end Host

end LocalSend
