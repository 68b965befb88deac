import LocalSend.Http.Proof.Exchange
import LocalSend.Qt.Ascii

/-!
# At most one of each

`Exchange.Inv` ties the three flags of a connection to what it has emitted and written: a signal it
emits once has not been emitted while its flag is down, and no answer has been written while the
connection is not marked as answered. Every act keeps it, the answers that handlers give in the
middle of a parse included, so it holds in every run.
-/

set_option autoImplicit false

namespace LocalSend

/-- Nobody has answered. -/
def HttpConnection.AwaitsAnswer (c : HttpConnection) : Prop :=
  c.hasResponded = false ∧ c.responses = []

namespace Exchange

/-- What has to hold of the entries before one, and of the connection at that moment. -/
def Due (before : List Emission) (e : Emission) : Prop :=
  match e.signal with
  | .headersReady | .closed => True
  | .requestReady => e.conn.AwaitsAnswer
  | .bodyProgress | .write _ _ =>
    e.conn.AwaitsAnswer ∧ ∀ d ∈ before, d.signal ≠ .requestReady

/-- The body, and the count of its bytes, as of the last delivery. -/
def delivered (log : List Emission) : QByteArray × Nat :=
  (Lib.last? (fun e => if e.signal = .bodyProgress then some (e.conn.body, e.conn.bodyReceived)
    else none) log).getD ([], 0)

structure AtMostOnce (s : Exchange) : Prop where
  response : s.conn.responses.length ≤ 1
  headersReady : s.emitted .headersReady ≤ 1
  requestReady : s.emitted .requestReady ≤ 1
  closed : s.emitted .closed ≤ 1
  order : Lib.Justified Due s.log
  body : (s.conn.body, s.conn.bodyReceived) = delivered s.log

/-- All of it but the body, and the flags that see to it. -/
structure Inv (s : Exchange) : Prop where
  response : s.conn.responses.length ≤ 1
  headersReady : s.emitted .headersReady ≤ 1
  requestReady : s.emitted .requestReady ≤ 1
  closed : s.emitted .closed ≤ 1
  order : Lib.Justified Due s.log
  silent : s.conn.state ≠ .responded → s.conn.responses = []
  head : s.conn.state = .readingHeaders →
    s.conn.bodyComplete = false ∧ s.emitted .headersReady = 0
  part : s.conn.bodyComplete = false → s.emitted .requestReady = 0
  up : s.conn.closedEmitted = false → s.emitted .closed = 0
  down : s.conn.closedEmitted = true → s.conn.state = .responded

/-- Every byte of the body was delivered. -/
def Tracks (s : Exchange) : Prop := (s.conn.body, s.conn.bodyReceived) = delivered s.log

variable {s t : Exchange}

theorem emitted_emit (x y : Signal) (s : Exchange) :
    (s.emit x).emitted y = s.emitted y + if x = y then 1 else 0 := by
  unfold emitted emit
  rw [List.map_append, List.map_singleton, List.count_append, List.count_singleton]
  by_cases h : x = y <;> simp [h]

theorem emitted_other {x y : Signal} (h : x ≠ y) : (s.emit x).emitted y = s.emitted y := by
  rw [emitted_emit, if_neg h, Nat.add_zero]

theorem emitted_fresh {x y : Signal} (hy : s.emitted y ≤ 1) (hx : x = y → s.emitted y = 0) :
    (s.emit x).emitted y ≤ 1 := by
  rw [emitted_emit]
  split
  · rename_i h
    have h0 := hx h
    omega
  · exact hy

theorem tracks_emit {x : Signal} (h : x ≠ .bodyProgress) (ht : s.Tracks) : (s.emit x).Tracks := by
  unfold Tracks delivered emit
  rw [Lib.last?_concat, if_neg h]
  exact ht

theorem tracks_progress (s : Exchange) : (s.emit .bodyProgress).Tracks := by
  unfold Tracks delivered emit
  rw [Lib.last?_concat, if_pos rfl]
  rfl

theorem notMem_of_emitted {x : Signal} (h : s.emitted x = 0) : ∀ d ∈ s.log, d.signal ≠ x := by
  intro d hd hx
  have hm : d.signal ∈ s.log.map Emission.signal := List.mem_map_of_mem hd
  rw [hx] at hm
  exact absurd hm (List.count_eq_zero.1 h)

theorem Inv.awaits (h : s.Inv) (hs : s.conn.state ≠ .responded) : s.conn.AwaitsAnswer :=
  ⟨by simpa [HttpConnection.hasResponded] using hs, h.silent hs⟩

/-! ## The connection changes -/

/-- Whether anything of the body is in does not matter. -/
theorem Inv.congr (h : s.Inv) {c : HttpConnection} (hstate : c.state = s.conn.state)
    (hbc : c.bodyComplete = s.conn.bodyComplete) (hresp : c.responses = s.conn.responses)
    (hce : c.closedEmitted = s.conn.closedEmitted) : Inv { s with conn := c } where
  response := by
    rw [hresp]
    exact h.response
  headersReady := h.headersReady
  requestReady := h.requestReady
  closed := h.closed
  order := h.order
  silent hs := by
    rw [hresp]
    exact h.silent (hstate ▸ hs)
  head hs := by
    rw [hbc]
    exact h.head (hstate ▸ hs)
  part hb := h.part (hbc ▸ hb)
  up hu := h.up (hce ▸ hu)
  down hd := by
    rw [hstate]
    exact h.down (hce ▸ hd)

theorem Inv.keeps (h : s.Inv) {c : HttpConnection} (hc : s.conn.Keeps c) :
    Inv { s with conn := c } :=
  h.congr hc.state hc.bodyComplete hc.responses hc.closedEmitted

/-- A connection gets past its head, or is marked as answered. -/
theorem Inv.moves (h : s.Inv) {state : State} (hne : state ≠ .readingHeaders)
    (hr : s.conn.state = .responded → state = .responded) :
    Inv { s with conn := { s.conn with state := state } } :=
  { h with
    silent := fun hs => h.silent fun hs' => hs (hr hs')
    head := fun hs => absurd hs hne
    down := fun hd => hr (h.down hd) }

theorem Inv.headIn (h : s.Inv) {c : HttpConnection} (hc : s.conn.HeadIn c) :
    Inv { s with conn := c } := by
  obtain ⟨hst, hkeeps⟩ := hc
  have hmoved : Inv { s with conn := { s.conn with state := .readingBody } } :=
    h.moves State.noConfusion fun hr => State.noConfusion (hst.symm.trans hr)
  exact hmoved.keeps hkeeps

/-- The one answer is written. -/
theorem Inv.sent (h : s.Inv) (hs : s.conn.state = .responded) (hnone : s.conn.responses = [])
    (r : Response) :
    Inv { s with conn := { s.conn with sent := s.conn.sent ++ [.response r] } } :=
  { h with
    response := by
      change (List.filterMap _ (s.conn.sent ++ [.response r])).length ≤ 1
      rw [List.filterMap_append, show s.conn.sent.filterMap Message.response? = [] from hnone]
      exact le_rfl
    silent := fun hne => absurd hs hne }

theorem Inv.completed (h : s.Inv) (hb : s.conn.InBody) : Inv { s with conn := s.conn.completed } :=
  { h with
    head := fun hs => State.noConfusion (hb.1.symm.trans hs)
    part := fun hf => Bool.noConfusion hf }

theorem Inv.closing (h : s.Inv) : Inv { s with conn := { s.conn with
    closedEmitted := true
    state := .responded } } :=
  { h with
    silent := fun hs => absurd rfl hs
    head := fun hs => State.noConfusion hs
    up := fun hu => Bool.noConfusion hu
    down := fun _ => rfl }

/-! ## A signal is emitted -/

/-- The flags of a signal that is emitted once are up by the time it is emitted. -/
theorem Inv.emit (h : s.Inv) {x : Signal} (hdue : Due s.log ⟨x, s.conn⟩)
    (hhead : x = .headersReady → s.conn.state ≠ .readingHeaders ∧ s.emitted .headersReady = 0)
    (hpart : x = .requestReady → s.conn.bodyComplete = true ∧ s.emitted .requestReady = 0)
    (hup : x = .closed → s.conn.closedEmitted = true ∧ s.emitted .closed = 0) : (s.emit x).Inv where
  response := h.response
  headersReady := emitted_fresh h.headersReady fun hx => (hhead hx).2
  requestReady := emitted_fresh h.requestReady fun hx => (hpart hx).2
  closed := emitted_fresh h.closed fun hx => (hup hx).2
  order := h.order.concat hdue
  silent := h.silent
  head hs := by
    rw [emitted_other fun hx => (hhead hx).1 hs]
    exact h.head hs
  part hb := by
    rw [emitted_other fun hx => Bool.noConfusion (hb.symm.trans (hpart hx).1)]
    exact h.part hb
  up hu := by
    rw [emitted_other fun hx => Bool.noConfusion (hu.symm.trans (hup hx).1)]
    exact h.up hu
  down := h.down

/-- A connection that reads its body delivers some of it. -/
theorem Inv.delivers (h : s.Inv) (hb : s.conn.InBody) {x : Signal}
    (hx : x = .bodyProgress ∨ ∃ file data, x = .write file data) : (s.emit x).Inv := by
  have hdue : s.conn.AwaitsAnswer ∧ ∀ d ∈ s.log, d.signal ≠ .requestReady :=
    ⟨h.awaits hb.isOpen.1, notMem_of_emitted (h.part hb.2)⟩
  rcases hx with rfl | ⟨file, data, rfl⟩
  · exact h.emit hdue nofun nofun nofun
  · exact h.emit hdue nofun nofun nofun

/-! ## Answers and the end of the connection -/

theorem Inv.hangUp (h : s.Inv) : (port.hangUp s).Inv := by
  have hdown : Inv { s with conn := { s.conn with connected := false } } :=
    h.congr rfl rfl rfl rfl
  unfold Port.hangUp Port.onDisconnected
  split
  · exact hdown
  · rename_i hup
    exact hdown.closing.emit trivial nofun nofun
      fun _ => ⟨rfl, h.up ((Bool.not_eq_true _).mp hup)⟩

theorem Tracks.hangUp (h : s.Tracks) : (port.hangUp s).Tracks := by
  unfold Port.hangUp Port.onDisconnected
  split
  · exact h
  · exact tracks_emit nofun h

theorem Inv.answer (h : s.Inv) (hs : s.conn.state ≠ .responded) (status : Nat)
    (payload contentType : QByteArray) : (port.respond status payload contentType s).Inv := by
  have hmoved : Inv { s with conn := { s.conn with state := .responded } } :=
    h.moves State.noConfusion fun _ => rfl
  have hmark : s.marked.Inv := hmoved.congr rfl rfl rfl rfl
  exact respond_keep hs status payload contentType hmark (hmark.sent rfl (h.silent hs))
    Inv.hangUp fun hu hc => hu.keeps hc

theorem Tracks.answer (h : s.Tracks) (hs : s.conn.state ≠ .responded) (status : Nat)
    (payload contentType : QByteArray) : (port.respond status payload contentType s).Tracks := by
  refine respond_keep hs status payload contentType h (fun _ => h) Tracks.hangUp ?_
  intro u c hu hc
  change (c.body, c.bodyReceived) = _
  rw [hc.body, hc.bodyReceived]
  exact hu

/-! ## Acts and runs -/

theorem Act.inv (ha : Act s t) (h : s.Inv) : t.Inv := by
  cases ha with
  | change hc => exact h.keeps hc.toKeeps
  | head hc => exact h.headIn hc
  | announce hc =>
    refine (h.headIn hc).emit trivial (fun _ => ⟨?_, (h.head hc.1).2⟩) nofun nofun
    exact fun hs => State.noConfusion (hc.2.state.symm.trans hs)
  | write file data hb => exact h.delivers hb (.inr ⟨file, data, rfl⟩)
  | deliver body received hb =>
    have hset : Inv { s with conn := { s.conn with
        body := body
        bodyReceived := received } } := h.congr rfl rfl rfl rfl
    exact hset.delivers hb (.inl rfl)
  | complete hb =>
    exact (h.completed hb).emit (h.awaits hb.isOpen.1) nofun (fun _ => ⟨rfl, h.part hb.2⟩) nofun
  | answer status payload contentType hs => exact h.answer hs status payload contentType
  | hangUp => exact h.hangUp

theorem Act.tracks (ha : Act s t) (h : s.Tracks) : t.Tracks := by
  have same : ∀ {c : HttpConnection}, c.body = s.conn.body → c.bodyReceived = s.conn.bodyReceived →
      Tracks { s with conn := c } := by
    intro c hbody hreceived
    change (c.body, c.bodyReceived) = _
    rw [hbody, hreceived]
    exact h
  cases ha with
  | change hc => exact same hc.body hc.bodyReceived
  | head hc => exact same hc.2.body hc.2.bodyReceived
  | announce hc => exact tracks_emit nofun (same hc.2.body hc.2.bodyReceived)
  | write file data hb => exact tracks_emit nofun h
  | deliver body received hb => exact tracks_progress _
  | complete hb => exact tracks_emit nofun (same rfl rfl)
  | answer status payload contentType hs => exact h.answer hs status payload contentType
  | hangUp => exact h.hangUp

theorem stamp_conn (s : Exchange) : s.stamp.conn = s.conn ∧ s.stamp.log = s.log := by
  unfold stamp
  split <;> exact ⟨rfl, rfl⟩

theorem Inv.stamp (h : s.Inv) : s.stamp.Inv := by
  unfold Exchange.stamp
  split
  · exact { h with }
  · exact h

theorem clock_eq (s : Exchange) (e : ExchangeEvent) :
    s.clock e = { s with conn := (s.clock e).conn } := by
  cases e with
  | readyRead data handlers =>
    simp only [clock]
    split <;> rfl
  | _ => rfl

section

variable [Qt]

theorem Inv.next (h : s.Inv) (e : ExchangeEvent) : (s.next e).Inv := by
  have hclock : (s.clock e).Inv := by
    rw [clock_eq]
    exact h.keeps (clock_keeps s e)
  exact ((handle_acts s e).keep (fun ha hu => ha.inv hu) hclock).stamp

theorem Tracks.next (h : s.Tracks) (e : ExchangeEvent) : (s.next e).Tracks := by
  have hclock : (s.clock e).Tracks := by
    rw [clock_eq]
    change ((s.clock e).conn.body, (s.clock e).conn.bodyReceived) = _
    rw [(clock_keeps s e).body, (clock_keeps s e).bodyReceived]
    exact h
  have hhandled : (s.handle e).Tracks := (handle_acts s e).keep (fun ha hu => ha.tracks hu) hclock
  obtain ⟨hconn, hlog⟩ := stamp_conn (s.handle e)
  change ((s.handle e).stamp.conn.body, (s.handle e).stamp.conn.bodyReceived) =
    delivered (s.handle e).stamp.log
  rw [hconn, hlog]
  exact hhandled

omit [Qt] in
theorem Start.inv (h : Start s) : s.Inv := by
  obtain ⟨now, address, certificate, rfl⟩ := h
  exact {
    response := Nat.zero_le _
    headersReady := Nat.zero_le _
    requestReady := Nat.zero_le _
    closed := Nat.zero_le _
    order := .nil
    silent := fun _ => rfl
    head := fun _ => ⟨rfl, rfl⟩
    part := fun _ => rfl
    up := fun _ => rfl
    down := fun hd => Bool.noConfusion hd }

theorem reached_inv {ok : Exchange → ExchangeEvent → Prop} (h : Lib.ReachedBy system ok s) :
    s.Inv := h.invariant (I := Inv) (fun _ hs => Start.inv hs) fun _ e hi _ => hi.next e

/-- In every run a connection answers at most once, emits each signal at most once and its request
never after an answer, and delivers nothing after either. -/
theorem at_most_one_each (h : Lib.Reached system s) : s.AtMostOnce := by
  have hi := reached_inv h
  have hstart : ∀ s, Start s → s.Tracks := by
    rintro _ ⟨now, address, certificate, rfl⟩
    rfl
  exact {
    response := hi.response
    headersReady := hi.headersReady
    requestReady := hi.requestReady
    closed := hi.closed
    order := hi.order
    body := h.invariant (I := Tracks) hstart fun _ e ht _ => ht.next e }

end

section

local instance overlongQt : Qt := Ascii.qt [] []

/-- A body is longer than its sink takes, the handler answers as well, once at once and once later,
and the peer hangs up twice. -/
def overlong : List ExchangeEvent :=
  let handlers : Handlers :=
    ⟨fun _ => [.streamBodyTo 0 4, .respond 403 [] []], fun _ => [], fun _ _ data => data.length⟩
  [.readyRead (ascii "POST / HTTP/1.1" ++ crlf ++ ascii "Content-Length: 9" ++ crlf ++ crlf
      ++ ascii "abc") handlers,
    .readyRead (ascii "defghi") handlers, .reacts (.respond 200 [] []), .disconnected, .disconnected]

theorem overlong_once :
    let s := overlong.foldl next (accepted 0 (str "192.168.1.7") none)
    s.AtMostOnce ∧ s.conn.responses.map Response.status = [413] ∧ s.emitted .closed = 1 := by
  have hreached : Lib.Reached system (overlong.foldl next (accepted 0 (str "192.168.1.7") none)) :=
    .run_any overlong (.start ⟨_, _, _, rfl⟩)
  exact ⟨at_most_one_each hreached, by decide, by decide⟩

end

end Exchange

end LocalSend
