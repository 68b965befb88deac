import LocalSend.Http.Connection
import LocalSend.Lib.Run

/-!
# One connection

An `HttpConnection` and what can happen to it, in any order: segments, its timers, the end of the
connection, and handlers that react to its signals in whatever way, at once or later. `log` is a
ghost that keeps every signal and every write to the sink, with the connection as it was then.

In a timely run a timer fires when it is due and the clock does not pass an armed timer; a socket
that is down hears nothing more.
-/

set_option autoImplicit false

namespace LocalSend

inductive Signal
  | headersReady | requestReady | bodyProgress | closed
  | write (file : FileId) (data : QByteArray)
  deriving DecidableEq

structure Emission where
  signal : Signal
  conn : HttpConnection

structure Exchange where
  conn : HttpConnection
  log : List Emission
  /-- A ghost: when the answer was written. -/
  answeredAt : Option Nat

/-- What a handler does to the connection. -/
inductive Reaction
  | streamBodyTo (file : FileId) (maxBytes : Int)
  | respond (status : Nat) (payload contentType : QByteArray)
  | addHeader (name value : QByteArray)

/-- The handlers of a segment, and how many of the bytes the sink takes. -/
structure Handlers where
  headersReady : Exchange → List Reaction
  requestReady : Exchange → List Reaction
  takes : Exchange → FileId → QByteArray → Nat

inductive ExchangeEvent
  | readyRead (data : QByteArray) (handlers : Handlers)
  | idleTimeout
  | headerDeadline
  | disconnected
  /-- A handler that kept the connection comes back to it. -/
  | reacts (r : Reaction)
  /-- From now on the socket goes down as soon as an answer is written, or no longer does. -/
  | network (hangsUp : Bool)
  | tick (ms : Nat)

namespace Exchange

def accepted (now : Nat) (address : QString) (certificate : Option QByteArray) : Exchange :=
  ⟨.accepted now address certificate, [], none⟩

def emit (x : Signal) (s : Exchange) : Exchange := { s with log := s.log ++ [⟨x, s.conn⟩] }

def port : Port Exchange where
  get s := s.conn
  set c s := { s with conn := c }
  closed s := s.emit .closed
  get_set _ _ := rfl
  set_get _ := rfl
  set_set _ _ _ := rfl

def react (s : Exchange) : Reaction → Exchange
  | .streamBodyTo file maxBytes => port.streamBodyTo file maxBytes s
  | .respond status payload contentType => port.respond status payload contentType s
  | .addHeader name value => port.modify (fun c => c.addHeader name value) s

def host (h : Handlers) : Host Exchange where
  toPort := port
  headersReady s := (h.headersReady s).foldl react (s.emit .headersReady)
  requestReady s := (h.requestReady s).foldl react (s.emit .requestReady)
  bodyProgress s := s.emit .bodyProgress
  write file data s := (h.takes s file data, s.emit (.write file data))

/-- An answer is dated once it is there. -/
def stamp (s : Exchange) : Exchange :=
  if s.answeredAt = none ∧ s.conn.responses ≠ [] then { s with answeredAt := some s.conn.now } else s

def handle [Qt] (s : Exchange) : ExchangeEvent → Exchange
  | .readyRead data handlers => (host handlers).onReadyRead data s
  | .idleTimeout => port.onIdleTimeout s
  | .headerDeadline => port.onHeaderDeadline s
  | .disconnected => port.hangUp s
  | .reacts r => s.react r
  | .network hangsUp => port.modify (fun c => { c with hangsUp := hangsUp }) s
  | .tick ms => port.modify (fun c => { c with now := c.now + ms }) s

def next [Qt] (s : Exchange) (e : ExchangeEvent) : Exchange := (s.handle e).stamp

def Start (s : Exchange) : Prop := ∃ now address certificate, s = accepted now address certificate

def system [Qt] : Lib.System Exchange ExchangeEvent := ⟨Start, next⟩

def Timely (s : Exchange) : ExchangeEvent → Prop
  | .readyRead _ _ => s.conn.connected = true
  | .idleTimeout => ∃ due ∈ s.conn.idleTimer, due ≤ s.conn.now
  | .headerDeadline => ∃ due ∈ s.conn.headerDeadline, due ≤ s.conn.now
  | .tick ms => (∀ due ∈ s.conn.idleTimer, s.conn.now + ms ≤ due) ∧
      ∀ due ∈ s.conn.headerDeadline, s.conn.now + ms ≤ due
  | _ => True

instance (s : Exchange) : (e : ExchangeEvent) → Decidable (s.Timely e)
  | .readyRead _ _ => instDecidableEqBool _ _
  | .idleTimeout => Option.decidableExistsMem _
  | .headerDeadline => Option.decidableExistsMem _
  | .tick _ => @instDecidableAnd _ _ (Option.decidableForallMem _) (Option.decidableForallMem _)
  | .disconnected | .reacts _ | .network _ => .isTrue trivial

/-- How often a signal was emitted. -/
def emitted (x : Signal) (s : Exchange) : Nat := (s.log.map Emission.signal).count x

end Exchange

end LocalSend
