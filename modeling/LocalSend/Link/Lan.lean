import LocalSend.Send.Run

/-!
# Devices on one network

Any number of devices that find each other: the datagrams under way between them, and the answers
that `/register` gave. An announcement goes to the whole group, also to the one who sent it; a
datagram for an address goes to the device that has it. The network delivers what is under way in any
order, or loses it; a request finds the device of its host, or fails.
-/

set_option autoImplicit false

namespace LocalSend

/-- What is under way to `dest`. -/
inductive Mail (ι : Type)
  | datagram (payload : QByteArray) (source dest : ι)
  /-- The answer to a request of `dest`. -/
  | greeting (id : ReplyId) (body : QByteArray) (dest : ι)

/-- The devices of a network, and their addresses. -/
structure Site (ι : Type) where
  all : List ι
  address : ι → QString

structure Lan (ι : Type) where
  devices : ι → Sender
  mail : List (Mail ι)

inductive LanEvent (ι : Type)
  /-- Anything that happens on a device by itself. -/
  | happens (k : ι) (e : SenderEvent)
  /-- Whatever is `n`-th under way arrives. -/
  | delivers (n : Nat)
  | loses (n : Nat)
  /-- A request of `k` meets the device of its host, which answers it. -/
  | greets (k : ι) (id : ReplyId) (certificate : QByteArray) (reported : Bool)
  | fails (k : ι) (id : ReplyId) (errorString : QString)

namespace Lan

variable {ι : Type} [DecidableEq ι] [Qt]

/-- What an entry of the log of `k` puts on the network. -/
def outgoing (site : Site ι) (k : ι) (self : DeviceInfo) : Outbound → List (Mail ι)
  | .announced => site.all.map fun j => .datagram (Qt.toJson (self.toAnnouncement true)) k j
  | .answered address _ => (site.all.filter fun j => site.address j = address).map fun j =>
    .datagram (Qt.toJson (self.toAnnouncement false)) k j
  | _ => []

/-- `e` happens on `k`, and what it sends is under way. -/
def happen (site : Site ι) (k : ι) (e : SenderEvent) (s : Lan ι) : Lan ι :=
  let w := s.devices k
  let v := w.step e
  { devices := Function.update s.devices k v
    mail := s.mail ++
      (v.log.drop w.log.length).flatMap fun entry => outgoing site k v.settings.self entry.what }

def receive (site : Site ι) (s : Lan ι) : Mail ι → Lan ι
  | .datagram payload source dest =>
    match Qt.fromJson payload with
    | some o => happen site dest (.datagram o (site.address source)) s
    | none => s
  | .greeting id body dest => happen site dest (.answered id false 200 [] body) s

/-- The device that a request of `k` finds, and what it reads there. -/
def meets (site : Site ι) (k : ι) (id : ReplyId) (certificate : QByteArray) (reported : Bool)
    (s : Lan ι) : Option (ι × QByteArray) :=
  match (s.devices k).replies id with
  | some ⟨request, false, _⟩ =>
    match request.content with
    | .introduction body =>
      if request.slot.isGreeting ∧ request.connects certificate reported then
        (site.all.find? fun j => site.address j = request.host).map (·, body)
      else none
    | _ => none
  | _ => none

/-- The request `id` of `k` is heard by `j`, who answers. -/
def greet (site : Site ι) (k j : ι) (id : ReplyId) (certificate : QByteArray) (reported : Bool)
    (body : QByteArray) (s : Lan ι) : Lan ι :=
  let s := happen site k (.connects id certificate reported) s
  let s := happen site j (.register ((Qt.fromJson body).getD []) (site.address k)) s
  { s with mail := s.mail ++
    [.greeting id (Qt.toJson (s.devices j).settings.self.toInfoResponse) k] }

def next (site : Site ι) (s : Lan ι) : LanEvent ι → Lan ι
  | .happens k e => happen site k e s
  | .delivers n =>
    match s.mail[n]? with
    | some m => receive site { s with mail := s.mail.eraseIdx n } m
    | none => s
  | .loses n => { s with mail := s.mail.eraseIdx n }
  | .greets k id certificate reported =>
    match meets site k id certificate reported s with
    | some (j, body) => greet site k j id certificate reported body s
    | none => s
  | .fails k id errorString => happen site k (.fails id errorString) s

/-- Nothing has been sent yet. -/
structure Start (s : Lan ι) : Prop where
  devices : ∀ k, (s.devices k).Start
  mail : s.mail = []

def system (site : Site ι) : Lib.System (Lan ι) (LanEvent ι) := ⟨Start, next site⟩

end Lan

end LocalSend
