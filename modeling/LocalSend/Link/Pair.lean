import LocalSend.Link.Request
import LocalSend.Send.Run

/-!
# A sender and a receiver

One device that sends, another one that receives, and the connections between them. A `Wire` is a
request of the sending side that set off for the receiving side, and how much of it has arrived: the
network delivers the bytes in order, or no more of them. An answer comes back over the connection it
was written to, or not at all. Everything else that can happen to either side happens at any time.
-/

set_option autoImplicit false

namespace LocalSend

structure Wire where
  reply : ReplyId
  request : QNetworkRequest
  /-- The bytes that the network manager makes of the request. -/
  stream : QByteArray
  arrived : Nat

/-- The wires are the connections of the receiving side, by their numbers. -/
structure Pair where
  sender : Sender
  receiver : World
  wires : List Wire

inductive PairEvent
  | sender (e : SenderEvent)
  | receiver (e : Event)
  /-- A request meets the receiving side, which sees a client with this address and certificate. -/
  | connect (id : ReplyId) (certificate : QByteArray) (reported : Bool) (address : QString)
    (client : Option QByteArray) (stream : QByteArray)
  /-- The next bytes arrive. -/
  | deliver (i : ConnId) (n : Nat)
  /-- As much of an answer as gets through. -/
  | answer (i : ConnId) (r : Response) (error : Bool) (errorString : QString) (body : QByteArray)

namespace Pair

/-- The bytes that have arrived on a connection. -/
def arrived (p : Pair) (i : ConnId) : QByteArray :=
  match p.wires[i]? with
  | some x => x.stream.take x.arrived
  | none => []

/-- The body that a connection is to bring. -/
def body (p : Pair) (i : ConnId) : QByteArray :=
  match p.wires[i]? with
  | some x => x.request.content.body
  | none => []

variable [Qt]

def next (p : Pair) : PairEvent → Pair
  | .sender e => { p with sender := p.sender.step e }
  | .receiver e => { p with receiver := p.receiver.step e }
  | .connect id certificate reported address client stream =>
    match p.sender.replies id with
    | some r =>
      if ¬ r.sent ∧ r.request.connects certificate reported ∧ p.receiver.server.isListening then
        { sender := p.sender.step (.connects id certificate reported)
          receiver := p.receiver.step (.connect address client)
          wires := p.wires ++ [⟨id, r.request, stream, 0⟩] }
      else p
    | none => p
  | .deliver i n =>
    match p.wires[i]? with
    | some x =>
      if p.receiver.live i then
        let data := (x.stream.drop x.arrived).take n
        { p with
          receiver := p.receiver.step (.readyRead i data)
          wires := p.wires.set i { x with arrived := x.arrived + data.length } }
      else p
    | none => p
  | .answer i r error errorString body =>
    match p.wires[i]? with
    | some x => { p with
      sender := p.sender.step (.answered x.reply error r.status errorString body) }
    | none => p

structure Start (p : Pair) : Prop where
  sender : p.sender.Start
  receiver : p.receiver.Start
  wires : p.wires = []

def system : Lib.System Pair PairEvent := ⟨Start, next⟩

end Pair

end LocalSend
