import LocalSend.Lib.Run

/-!
# The sockets of the server

`HttpServer::incomingConnection` and what is connected to the signals of a socket it accepted. A
socket is an object of its own: it is counted from `track` to its destruction, which the event loop
comes to some time after `deleteLater`. Qt's part: an error and the end of a connection reach the
slots as `error` and `disconnected`, `abort` as `disconnected` only.
-/

set_option autoImplicit false

namespace LocalSend

def MaxConnections : Nat := 24

/-- A `QTcpSocket` that was accepted, or a `QSslSocket`. -/
structure Socket where
  secure : Bool
  connected : Bool
  isEncrypted : Bool
  /-- An `HttpConnection` was built on it, and owns it. -/
  adopted : Bool
  deleting : Bool
  destroyed : Bool
  /-- A ghost: the handshake timer closed it. -/
  cut : Bool
  deriving DecidableEq

namespace Socket

def accepted (secure : Bool) : Socket :=
  ⟨secure, true, false, false, false, false, false⟩

def deleteLater (s : Socket) : Socket := { s with deleting := true }

def adopt (s : Socket) : Socket := { s with adopted := true }

/-- `HttpConnection::onDisconnected`: the connection goes, and its socket with it. -/
def onDisconnected (s : Socket) : Socket := if s.adopted then s.deleteLater else s

/-- The slot of a `QSslSocket`. -/
def onError (s : Socket) : Socket := if s.secure then s.deleteLater else s

/-- The handshake went through. -/
def onEncrypted (s : Socket) : Socket :=
  if s.connected && s.secure && !s.isEncrypted then { s with isEncrypted := true }.adopt else s

/-- The peer hangs up, or the handshake fails. -/
def fails (s : Socket) : Socket :=
  if s.connected then { s with connected := false }.onError.onDisconnected else s

/-- `abort`, or a `disconnectFromHost` that came to its end. -/
def close (s : Socket) : Socket :=
  if s.connected then { s with connected := false }.onDisconnected else s

/-- The timer of `incomingConnection`. -/
def onHandshakeTimeout (s : Socket) : Socket :=
  if s.secure && !s.isEncrypted then { s.close with cut := s.cut || s.connected } else s

end Socket

structure SocketPool where
  isSecure : Bool
  liveConnections : Nat
  /-- In the order they were accepted. -/
  sockets : List Socket

inductive SocketEvent
  /-- A connection comes in, and its descriptor can be used or not. -/
  | incoming (usable : Bool)
  | encrypted (i : Nat)
  | fails (i : Nat)
  /-- This side closes a connection it adopted. -/
  | closes (i : Nat)
  | handshakeTimeout (i : Nat)
  /-- The event loop comes to a `deleteLater`. -/
  | deferredDelete (i : Nat)
  | setIdentity (secure : Bool)

namespace SocketPool

def refuses (w : SocketPool) : Bool := MaxConnections ≤ w.liveConnections

def incomingConnection (usable : Bool) (w : SocketPool) : SocketPool :=
  if w.refuses || !usable then w
  else
    let socket := Socket.accepted w.isSecure
    { w with
      liveConnections := w.liveConnections + 1
      sockets := w.sockets ++ [if w.isSecure then socket else socket.adopt] }

/-- Something happens to socket `i`, if that is still there. -/
def on (i : Nat) (f : Socket → Socket) (w : SocketPool) : SocketPool :=
  match w.sockets[i]? with
  | some s => if s.destroyed then w else { w with sockets := w.sockets.set i (f s) }
  | none => w

def destroy (i : Nat) (w : SocketPool) : SocketPool :=
  match w.sockets[i]? with
  | some s =>
    if s.deleting && !s.destroyed then { w with
      liveConnections := w.liveConnections - 1
      sockets := w.sockets.set i { s with destroyed := true } }
    else w
  | none => w

def step (w : SocketPool) : SocketEvent → SocketPool
  | .incoming usable => w.incomingConnection usable
  | .encrypted i => w.on i .onEncrypted
  | .fails i => w.on i .fails
  | .closes i => w.on i fun s => if s.adopted then s.close else s
  | .handshakeTimeout i => w.on i .onHandshakeTimeout
  | .deferredDelete i => w.destroy i
  | .setIdentity secure => { w with isSecure := secure }

def Start (w : SocketPool) : Prop := w.liveConnections = 0 ∧ w.sockets = []

def system : Lib.System SocketPool SocketEvent := ⟨Start, step⟩

/-- The sockets that are still open. -/
def opened (w : SocketPool) : Nat := w.sockets.countP (·.connected)

/-- Those that are closed, and will be deleted as soon as the event loop comes to it. -/
def closing (w : SocketPool) : Nat := w.sockets.countP fun s => s.deleting && !s.destroyed

/-- Those whose handshake was cut by its timer. -/
def cuts (w : SocketPool) : Nat := w.sockets.countP (·.cut)

end SocketPool

end LocalSend
