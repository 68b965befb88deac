import LocalSend.Qt.Url
import LocalSend.Send.Discovery

/-!
# Devices by address, as text

What is typed and what the settings keep is text, which `addDeviceAt` and `refreshManualDevices`
take apart at the last colon. `Sender.addDeviceAt` starts where the host and the port are known;
here is what comes before, and the endpoints in the notation the settings have.
-/

set_option autoImplicit false

namespace LocalSend

/-- `host:port`, as `addDeviceAt` writes it. -/
def endpointText (endpoint : QString × Int) : QString :=
  endpoint.1 ++ 58 :: DeviceInfo.decimal endpoint.2

/-- An endpoint taken apart by `refreshManualDevices`, unless it is skipped. -/
def readEndpoint (endpoint : QString) : Option (QString × Int) :=
  match QString.lastIndexOf endpoint 58 with
  | none => none
  | some colon =>
    if colon = 0 then none
    else
      let host := endpoint.take colon
      let port := (QString.toInt (endpoint.drop (colon + 1))).getD 0
      if host = [] ∨ port ≤ 0 then none else some (host, port)

namespace AppSettings

/-- What `addManualDevice` leaves of the stored list. -/
def addManualDevice (devices : List QString) (endpoint : QString) : List QString :=
  let trimmed := QString.trimmed endpoint
  if trimmed = [] ∨ devices.contains trimmed then devices else devices ++ [trimmed]

end AppSettings

namespace Sender

/-- The host and the port of what was typed, before a port that is none is replaced. -/
def splitTyped (address : QString) (port : Int) : QString × Int :=
  let host := QString.trimmed address
  let (host, targetPort) :=
    match QString.lastIndexOf host 58 with
    | none => (host, port)
    | some colon =>
      if colon > 0 ∧ 91 ∉ host then
        match QString.toInt (host.drop (colon + 1)) with
        | some parsed =>
          if parsed > 0 ∧ parsed < 65536 then (host.take colon, parsed) else (host, port)
        | none => (host, port)
      else (host, port)
  (QString.trimmed host, targetPort)

variable [Qt]

/-- `Discovery::addDeviceAt`. -/
def addTyped (address : QString) (port : Int) (w : Sender) : Sender :=
  w.addDeviceAt (splitTyped address port).1 (splitTyped address port).2

/-- `refreshManualDevices` over the endpoints as they are stored. -/
def refreshEndpoints (endpoints : List QString) (w : Sender) : Sender :=
  endpoints.foldl (fun w endpoint =>
    match readEndpoint endpoint with
    | none => w
    | some (host, port) => w.probeBoth host port .refreshed) w

end Sender

end LocalSend
