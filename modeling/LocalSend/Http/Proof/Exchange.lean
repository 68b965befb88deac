import LocalSend.Http.Exchange
import LocalSend.Http.Proof.Rule

/-!
# What a connection does

`Exchange.Act` is one thing a connection or its handler does while an event is dealt with, with all
that has to hold at that point. `handle_acts` says that an event does nothing else, once the clock
and the idle timer are as the event leaves them (`clock`).
-/

set_option autoImplicit false

namespace LocalSend

namespace HttpConnection

/-- The connection still reads. -/
def Open (c : HttpConnection) : Prop := c.state ≠ .responded ∧ c.bodyComplete = false

theorem InBody.isOpen {c : HttpConnection} (h : c.InBody) : c.Open :=
  ⟨by
    rw [h.1]
    exact State.noConfusion, h.2⟩

/-- Neither the flags nor the answers nor the body have changed. -/
structure Keeps (c c' : HttpConnection) : Prop where
  state : c'.state = c.state
  bodyComplete : c'.bodyComplete = c.bodyComplete
  responses : c'.responses = c.responses
  closedEmitted : c'.closedEmitted = c.closedEmitted
  body : c'.body = c.body
  bodyReceived : c'.bodyReceived = c.bodyReceived

theorem Keeps.refl (c : HttpConnection) : c.Keeps c := ⟨rfl, rfl, rfl, rfl, rfl, rfl⟩

/-- Nor have the clock and the timer that counts once a connection does not read any more. -/
structure Still (c c' : HttpConnection) : Prop extends c.Keeps c' where
  timer : ¬ c.Open → c'.idleTimer = c.idleTimer ∧ c'.idleInterval = c.idleInterval ∧
    c'.now = c.now ∧ (c'.connected = true → c.connected = true)

theorem Still.refl (c : HttpConnection) : c.Still c :=
  { Keeps.refl c with timer := fun _ => ⟨rfl, rfl, rfl, id⟩ }

theorem Still.of_open {c c' : HttpConnection} (ho : c.Open) (h : c.Keeps c') : c.Still c' :=
  { h with timer := fun hn => absurd ho hn }

theorem Turn.keeps {c c' : HttpConnection} (h : c.Turn c') : c.Keeps c' :=
  ⟨h.state, h.bodyComplete, h.responses, h.closedEmitted, h.body, h.bodyReceived⟩

/-- The head is in. -/
def HeadIn (c c' : HttpConnection) : Prop :=
  c.state = .readingHeaders ∧ { c with state := .readingBody }.Keeps c'

variable [Qt]

theorem HeadRead.headIn {c c' : HttpConnection} (h : c.HeadRead c') : c.HeadIn c' := by
  obtain ⟨hst, fin, c₁, -, hr, rfl⟩ := h
  obtain ⟨_, _, _, _, _, _, _, heq⟩ := Host.readHead_eq (c.buffer.take fin)
    { c with buffer := c.buffer.drop (fin + 4) }
  rw [hr] at heq
  rw [show c₁ = _ from heq]
  exact ⟨hst, rfl, rfl, rfl, rfl, rfl, rfl⟩

theorem HeadRefused.keeps {c c' : HttpConnection} (h : c.HeadRefused c') : c.Keeps c' := by
  obtain ⟨-, fin, -, hr⟩ := h
  obtain ⟨_, _, _, _, _, _, _, heq⟩ := Host.readHead_eq (c.buffer.take fin)
    { c with buffer := c.buffer.drop (fin + 4) }
  rw [hr] at heq
  rw [show c' = _ from heq]
  exact ⟨rfl, rfl, rfl, rfl, rfl, rfl⟩

end HttpConnection

namespace Exchange

inductive Act (s : Exchange) : Exchange → Prop
  | change {c : HttpConnection} : s.conn.Still c → Act s { s with conn := c }
  | head {c : HttpConnection} : s.conn.HeadIn c → Act s { s with conn := c }
  | announce {c : HttpConnection} : s.conn.HeadIn c → Act s (emit .headersReady { s with conn := c })
  | write (file : FileId) (data : QByteArray) : s.conn.InBody → Act s (s.emit (.write file data))
  | deliver (body : QByteArray) (received : Nat) : s.conn.InBody →
      Act s (emit .bodyProgress { s with conn := { s.conn with
        body := body
        bodyReceived := received } })
  | complete : s.conn.InBody → Act s (emit .requestReady { s with conn := s.conn.completed })
  | answer (status : Nat) (payload contentType : QByteArray) : s.conn.state ≠ .responded →
      Act s (port.respond status payload contentType s)
  | hangUp : Act s (port.hangUp s)

abbrev Acts : Exchange → Exchange → Prop := Relation.ReflTransGen Act

theorem Acts.keep {P : Exchange → Prop} {s t : Exchange} (ha : Acts s t)
    (hstep : ∀ {u v}, Act u v → P u → P v) (h : P s) : P t := by
  induction ha with
  | refl => exact h
  | tail _ hact ih => exact hstep hact ih

variable {s t : Exchange}

/-! ## Handlers -/

theorem respond_acts (s : Exchange) (status : Nat) (payload contentType : QByteArray) :
    Acts s (port.respond status payload contentType s) := by
  by_cases hs : s.conn.state = .responded
  · have hr : port.respond status payload contentType s = s := if_pos hs
    rw [hr]
  · exact .single (.answer status payload contentType hs)

theorem react_acts (s : Exchange) (r : Reaction) : Acts s (s.react r) := by
  cases r with
  | streamBodyTo file maxBytes =>
    have hset : Act s { s with conn := { s.conn with
        sink := some file
        maxBodyBytes := maxBytes } } := .change { HttpConnection.Still.refl _ with }
    change Acts s (port.streamBodyTo file maxBytes s)
    unfold Port.streamBodyTo
    simp only
    split
    · exact (Relation.ReflTransGen.single hset).trans (respond_acts _ 413 [] jsonType)
    · exact .single hset
  | respond status payload contentType => exact respond_acts s status payload contentType
  | addHeader name value => exact .single (.change { HttpConnection.Still.refl _ with })

theorem reacts_acts : ∀ (rs : List Reaction) (s : Exchange), Acts s (rs.foldl react s)
  | [], _ => .refl
  | r :: rs, s => (react_acts s r).trans (reacts_acts rs (s.react r))

theorem hangUp_bodyComplete (s : Exchange) :
    (port.hangUp s).conn.bodyComplete = s.conn.bodyComplete := by
  unfold Port.hangUp Port.onDisconnected
  split <;> rfl

/-- A connection that is marked as answered. -/
def marked (s : Exchange) : Exchange := port.modify (fun c => { c with
  state := .responded
  idleTimer := none }) s

theorem respond_eq (hs : s.conn.state ≠ .responded) (status : Nat)
    (payload contentType : QByteArray) :
    port.respond status payload contentType s =
      port.transmit status payload contentType s.marked := if_neg hs

/-- An answer is a mark, the answer itself, and what becomes of the socket. -/
theorem respond_keep {P : Exchange → Prop} (hs : s.conn.state ≠ .responded)
    (status : Nat) (payload contentType : QByteArray)
    (hmark : P s.marked)
    (hsent : ∀ r, P { s with conn := { s.conn with
      state := .responded
      idleTimer := none
      sent := s.conn.sent ++ [.response r] } })
    (hup : ∀ {u}, P u → P (port.hangUp u))
    (hrest : ∀ {u c}, P u → u.conn.Keeps c → P { u with conn := c }) :
    P (port.respond status payload contentType s) := by
  rw [respond_eq hs]
  unfold Port.transmit
  split
  · extract_lets u v
    have hu : P u := hsent _
    have hv : P v := by
      simp only [v]
      split
      · exact hup hu
      · exact hu
    split
    · exact hrest hv ⟨rfl, rfl, rfl, rfl, rfl, rfl⟩
    · exact hrest hv ⟨rfl, rfl, rfl, rfl, rfl, rfl⟩
  · exact hmark

/-- An answer leaves the body as it is. -/
theorem respond_bodyComplete (s : Exchange) (status : Nat) (payload contentType : QByteArray) :
    (port.respond status payload contentType s).conn.bodyComplete = s.conn.bodyComplete := by
  by_cases hs : s.conn.state = .responded
  · have hr : port.respond status payload contentType s = s := if_pos hs
    rw [hr]
  · exact respond_keep (P := fun u => u.conn.bodyComplete = s.conn.bodyComplete) hs status payload
      contentType rfl (fun _ => rfl) (fun hu => (hangUp_bodyComplete _).trans hu)
      fun hu hc => hc.bodyComplete.trans hu

theorem respond_state (hs : s.conn.state ≠ .responded) (status : Nat)
    (payload contentType : QByteArray) :
    (port.respond status payload contentType s).conn.state = .responded := by
  refine respond_keep (P := fun u => u.conn.state = .responded) hs status payload contentType rfl
    (fun _ => rfl) (fun hu => ?_) fun hu hc => hc.state.trans hu
  unfold Port.hangUp Port.onDisconnected
  split
  · exact hu
  · rfl

theorem react_bodyComplete (s : Exchange) (r : Reaction) :
    (s.react r).conn.bodyComplete = s.conn.bodyComplete := by
  cases r with
  | streamBodyTo file maxBytes =>
    change (port.streamBodyTo file maxBytes s).conn.bodyComplete = _
    unfold Port.streamBodyTo
    simp only
    split
    · exact respond_bodyComplete _ 413 [] jsonType
    · rfl
  | respond status payload contentType => exact respond_bodyComplete s status payload contentType
  | addHeader name value => rfl

theorem reacts_bodyComplete : ∀ (rs : List Reaction) (s : Exchange),
    (rs.foldl react s).conn.bodyComplete = s.conn.bodyComplete
  | [], _ => rfl
  | r :: rs, s => (reacts_bodyComplete rs (s.react r)).trans (react_bodyComplete s r)

/-! ## The log -/

theorem emit_grows (x : Signal) (s : Exchange) : s.log <+: (s.emit x).log :=
  List.prefix_append _ _

theorem hangUp_grows (s : Exchange) : s.log <+: (port.hangUp s).log := by
  unfold Port.hangUp Port.onDisconnected
  split
  · exact List.prefix_rfl
  · exact List.prefix_append _ _

/-- What was emitted stays in the log. -/
theorem Act.grows (ha : Act s t) : s.log <+: t.log := by
  cases ha with
  | answer status payload contentType hs =>
    exact respond_keep (P := fun u => s.log <+: u.log) hs status payload contentType
      List.prefix_rfl (fun _ => List.prefix_rfl) (fun hu => hu.trans (hangUp_grows _))
      fun hu _ => hu
  | hangUp => exact hangUp_grows s
  | change hc => exact List.prefix_rfl
  | head hc => exact List.prefix_rfl
  | announce hc => exact List.prefix_append _ _
  | write file data hb => exact emit_grows _ s
  | deliver body received hb => exact List.prefix_append _ _
  | complete hb => exact List.prefix_append _ _

theorem Acts.grows (ha : Acts s t) : s.log <+: t.log :=
  ha.keep (P := fun u => s.log <+: u.log) (fun hact hu => hu.trans hact.grows) List.prefix_rfl

theorem emitted_mono (x : Signal) (h : s.log <+: t.log) : s.emitted x ≤ t.emitted x :=
  (h.sublist.map Emission.signal).count_le x

/-! ## Reading -/

section

variable [Qt]

/-- What is shown of the handlers for a connection to read by the rules. -/
theorem host_rule (h : Handlers) (s : Exchange) :
    (host h).Rule (fun _ t => Acts s t ∧ t.conn.Open) (Acts s) where
  get_bodyProgress _ := rfl
  get_write _ _ _ := rfl
  stop hI _ := hI.1
  turn hI hb ht :=
    ⟨hI.1.tail (.change (.of_open hb.isOpen ht.keeps)), (ht.inBody hb).isOpen⟩
  take _ hI _ := ⟨hI.1.tail (.change { HttpConnection.Still.refl _ with }), hI.2⟩
  respond status payload contentType hI _ _ := hI.1.tail (.answer status payload contentType hI.2.1)
  keep := by
    intro t data hI hb _ _
    exact ⟨hI.1.tail (.deliver (t.conn.body ++ data) (t.conn.bodyReceived + data.length) hb), hI.2⟩
  write := by
    intro t f data hI hb _ _ _
    have hw : Act t (t.emit (.write f data)) := .write f data hb
    exact ⟨(hI.1.tail hw).tail (.deliver t.conn.body (t.conn.bodyReceived + data.length) hb), hI.2⟩
  short := by
    intro t f data hI hb _ _ _
    have hw : Act t (t.emit (.write f data)) := .write f data hb
    exact (hI.1.tail hw).tail (.answer 500 [] jsonType hI.2.1)
  longHead hI _ _ _ := hI.1.tail (.answer 431 [] jsonType hI.2.1)
  badHead := by
    intro t c hI hread
    have hc : Act t { t with conn := c } := .change (.of_open hI.2 hread.keeps)
    exact (hI.1.tail hc).trans (respond_acts _ 400 [] jsonType)
  headers := by
    intro t c hI hread _
    have hacts : Acts s ((host h).headersReady { t with conn := c }) :=
      (hI.1.tail (.announce hread.headIn)).trans (reacts_acts _ _)
    refine ⟨fun _ => hacts, fun hgoes => ⟨⟨hacts, ?_, ?_⟩, ?_⟩⟩
    · exact fun hr => State.noConfusion (hgoes.symm.trans hr)
    · exact (reacts_bodyComplete _ _).trans (hread.headIn.2.bodyComplete.trans hI.2.2)
    · exact (reacts_bodyComplete _ _).trans (hread.headIn.2.bodyComplete.trans hI.2.2)
  preflight := by
    intro t c hI hread _
    exact (hI.1.tail (.head hread.headIn)).trans (respond_acts _ 204 [] [])

theorem readyRead_acts (h : Handlers) (data : QByteArray) (ho : s.conn.Open) :
    Acts s ((host h).onReadyRead data s) := by
  have hfeed : Act s ((host h).modify (HttpConnection.feed data) s) :=
    .change (.of_open ho ⟨rfl, rfl, rfl, rfl, rfl, rfl⟩)
  rcases (host_rule h s).onReadyRead data ho.1 ho.2 ⟨.single hfeed, ho⟩ with
    ⟨-, hacts⟩ | ⟨t, hI, hb, -, hr, ht⟩
  · exact hacts
  · rw [ht, hr]
    exact (hI.1.tail (.complete hb)).trans (reacts_acts _ _)

/-! ## Events -/

/-- What an event does to the clock and to the idle timer of a connection that does not read. -/
def clock (s : Exchange) : ExchangeEvent → Exchange
  | .readyRead _ _ =>
    if s.conn.state = .responded ∨ s.conn.bodyComplete then
      port.modify (fun c => { c with idleTimer := some (c.now + c.idleInterval) }) s
    else s
  | .idleTimeout => port.modify (fun c => { c with idleTimer := none }) s
  | .tick ms => port.modify (fun c => { c with now := c.now + ms }) s
  | _ => s

omit [Qt] in
theorem clock_keeps (s : Exchange) (e : ExchangeEvent) : s.conn.Keeps (s.clock e).conn := by
  cases e with
  | readyRead data handlers =>
    simp only [clock]
    split
    · exact ⟨rfl, rfl, rfl, rfl, rfl, rfl⟩
    · exact .refl _
  | _ => exact ⟨rfl, rfl, rfl, rfl, rfl, rfl⟩

theorem handle_acts (s : Exchange) (e : ExchangeEvent) : Acts (s.clock e) (s.handle e) := by
  cases e with
  | readyRead data handlers =>
    simp only [clock, handle]
    split
    · rename_i hlate
      rw [Host.onReadyRead_late (host handlers) data hlate]
      exact .refl
    · rename_i hopen
      obtain ⟨hst, hbc⟩ := not_or.1 hopen
      exact readyRead_acts handlers data ⟨hst, (Bool.not_eq_true _).mp hbc⟩
  | idleTimeout =>
    change Acts (port.modify (fun c => { c with idleTimer := none }) s) (port.onIdleTimeout s)
    unfold Port.onIdleTimeout
    simp only
    split
    · exact .single .hangUp
    · exact respond_acts _ 408 [] jsonType
  | headerDeadline =>
    have hset : Act s (port.modify (fun c => { c with headerDeadline := none }) s) :=
      .change { HttpConnection.Still.refl _ with }
    change Acts s (port.onHeaderDeadline s)
    unfold Port.onHeaderDeadline
    simp only
    split
    · exact (Relation.ReflTransGen.single hset).trans (respond_acts _ 408 [] jsonType)
    · exact .single hset
  | disconnected => exact .single .hangUp
  | reacts r => exact react_acts s r
  | network hangsUp => exact .single (.change { HttpConnection.Still.refl _ with })
  | tick ms => exact .refl

end

end Exchange

end LocalSend
