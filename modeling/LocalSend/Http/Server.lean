import LocalSend.Qt.Bytes
import LocalSend.Qt.Text

/-!
# The listening socket

`HttpServer` with the port it is bound to. Whether the port can be bound is up to the system: what
`listen` reports is passed in, `none` for success.
-/

set_option autoImplicit false

namespace LocalSend

structure HttpServer where
  boundPort : Option Int := none
  certificate : QByteArray := []
  key : QByteArray := []
  lastError : QString := []

namespace HttpServer

def isListening (s : HttpServer) : Bool := s.boundPort.isSome

/-- A null certificate puts the server into plain HTTP. -/
def isSecure (s : HttpServer) : Bool := s.certificate ≠ [] && s.key ≠ []

def setIdentity (s : HttpServer) (certificate key : QByteArray) : HttpServer :=
  { s with certificate := certificate, key := key }

def stop (s : HttpServer) : HttpServer := { s with boundPort := none }

def start (s : HttpServer) (port : Int) (refusal : Option QString) : Bool × HttpServer :=
  let s := s.stop
  match refusal with
  | some reason => (false, { s with lastError := reason })
  | none => (true, { s with boundPort := some port, lastError := [] })

end HttpServer

end LocalSend
