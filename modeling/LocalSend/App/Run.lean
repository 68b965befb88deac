import LocalSend.Receive.Run
import LocalSend.Send.Run

/-!
# The app

What `main` wires: the receive service and the send service are given one and the same settings,
trust record, device list, transfer model and history. An event of one side leaves what is shared
to the other. What the switch for receiving does to `Discovery` comes as events of the sending side.
-/

set_option autoImplicit false

namespace LocalSend

/-- What `main` gives to both is one object. -/
structure Shares (w : World) (s : Sender) : Prop where
  settings : w.settings = s.settings
  known : w.known = s.known
  devices : w.devices = s.devices
  transfer : w.transfer = s.transfer
  history : w.history = s.history
  now : w.now = s.now

structure App where
  receiver : World
  sender : Sender
  shared : Shares receiver sender

inductive AppEvent
  | incoming (e : Event)
  | outgoing (e : SenderEvent)

/-- The event is about what is shared, and is one of the receiving side's. -/
def SenderEvent.isShared : SenderEvent → Bool
  | .register .. | .edit _ | .settings _ | .tick _ => true
  | _ => false

/-- The sending side sees what the receiving side left of what is shared. -/
def World.lend (w : World) (s : Sender) : Sender := { s with
  settings := w.settings
  known := w.known
  devices := w.devices
  transfer := w.transfer
  history := w.history
  now := w.now }

def Sender.lend (s : Sender) (w : World) : World := { w with
  settings := s.settings
  known := s.known
  devices := s.devices
  transfer := s.transfer
  history := s.history
  now := s.now }

namespace App

/-- The one transfer model. -/
def transfer (a : App) : TransferModel := a.receiver.transfer

variable [Qt]

def step (a : App) : AppEvent → App
  | .incoming e => ⟨a.receiver.step e, (a.receiver.step e).lend a.sender, ⟨rfl, rfl, rfl, rfl, rfl, rfl⟩⟩
  | .outgoing e =>
    if e.isShared then a
    else ⟨(a.sender.step e).lend a.receiver, a.sender.step e, ⟨rfl, rfl, rfl, rfl, rfl, rfl⟩⟩

structure Start (a : App) : Prop where
  receiver : a.receiver.Start
  sender : a.sender.Start

def system : Lib.System App AppEvent := ⟨Start, step⟩

end App

end LocalSend
