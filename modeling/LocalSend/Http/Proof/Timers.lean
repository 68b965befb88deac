import LocalSend.Http.Proof.Once

/-!
# The idle timer

What the idle timer owes to a request that is in and not answered (`Waits`), and to one that was
answered too early (`Bounded`). It is restarted before a segment is looked at, so both hold up to the
first segment that comes too late, and not beyond.
-/

set_option autoImplicit false

namespace LocalSend

def ExchangeEvent.IsTimer : ExchangeEvent → Prop
  | .idleTimeout | .headerDeadline => True
  | _ => False

namespace Exchange

/-- The request was handed out, and nobody has answered. -/
def Parked (s : Exchange) : Prop := s.emitted .requestReady ≠ 0 ∧ s.conn.hasResponded = false

instance (s : Exchange) : Decidable s.Parked := instDecidableAnd

/-- An answer was written before the body was in. -/
def Refused (s : Exchange) : Prop := s.conn.responses ≠ [] ∧ s.conn.bodyComplete = false

instance (s : Exchange) : Decidable s.Refused := instDecidableAnd

/-- A parked request is not for the timers to answer. -/
def Waits [Qt] (s : Exchange) : Prop := s.Parked →
  s.conn.idleTimer = none ∧ ∀ e : ExchangeEvent, e.IsTimer → s.Timely e → (s.next e).Parked

/-- A refused request holds its slot for the time it has to drain at most. -/
def Bounded (s : Exchange) : Prop := s.Refused → s.conn.connected = true →
  ∃ answered ∈ s.answeredAt, s.conn.now ≤ answered + DrainTimeoutMs

/-- Nothing comes in on a parked request. -/
def Undisturbed (s : Exchange) : ExchangeEvent → Prop
  | .readyRead _ _ => ¬ s.Parked
  | _ => True

/-- Nothing comes in on a refused request but at the instant it was answered. -/
def Prompt (s : Exchange) : ExchangeEvent → Prop
  | .readyRead _ _ => s.Refused → s.answeredAt = some s.conn.now
  | _ => True

instance (s : Exchange) : (e : ExchangeEvent) → Decidable (s.Undisturbed e)
  | .readyRead _ _ => inferInstanceAs (Decidable (¬ s.Parked))
  | .idleTimeout | .headerDeadline | .disconnected | .reacts _ | .network _ | .tick _ =>
    .isTrue trivial

instance (s : Exchange) : (e : ExchangeEvent) → Decidable (s.Prompt e)
  | .readyRead _ _ => inferInstanceAs (Decidable (s.Refused → _))
  | .idleTimeout | .headerDeadline | .disconnected | .reacts _ | .network _ | .tick _ =>
    .isTrue trivial

variable {s t : Exchange}

/-! ## A parked request -/

/-- The timer of a request that is in has been stopped. -/
structure Stilled (s : Exchange) : Prop where
  whole : s.conn.bodyComplete = true → s.emitted .requestReady ≠ 0
  idle : s.conn.bodyComplete = true → s.conn.state ≠ .responded → s.conn.idleTimer = none

theorem hangUp_state (h : s.Inv) : (port.hangUp s).conn.state = .responded := by
  unfold Port.hangUp Port.onDisconnected
  split
  · rename_i hd
    exact h.down hd
  · rfl

/-- Nothing is left to wait for once a connection is answered. -/
theorem Stilled.answered (h : s.Stilled) (hs : t.conn.state = .responded)
    (hb : t.conn.bodyComplete = s.conn.bodyComplete) (hlog : s.log <+: t.log) : t.Stilled := by
  refine ⟨fun hw => ?_, fun _ hne => absurd hs hne⟩
  have hmono := emitted_mono .requestReady hlog
  have hwhole := h.whole (hb ▸ hw)
  omega

/-- Nor has it begun while the body is on its way. -/
theorem Stilled.of_part (hb : t.conn.bodyComplete = false) : t.Stilled :=
  ⟨fun hw => Bool.noConfusion (hb.symm.trans hw), fun hw => Bool.noConfusion (hb.symm.trans hw)⟩

theorem Act.stilled (ha : Act s t) (hi : s.Inv) (h : s.Stilled) : t.Stilled := by
  cases ha with
  | change hc =>
    refine ⟨fun hb => h.whole (hc.bodyComplete ▸ hb), fun hb hs => ?_⟩
    have hbody : s.conn.bodyComplete = true := hc.bodyComplete ▸ hb
    have hclosed : ¬ s.conn.Open := fun ho => Bool.noConfusion (ho.2.symm.trans hbody)
    rw [(hc.timer hclosed).1]
    exact h.idle hbody (hc.state ▸ hs)
  | head hc => exact .of_part (hc.2.bodyComplete.trans (hi.head hc.1).1)
  | announce hc => exact .of_part (hc.2.bodyComplete.trans (hi.head hc.1).1)
  | write file data hb => exact .of_part hb.2
  | deliver body received hb => exact .of_part hb.2
  | complete hb =>
    refine ⟨fun _ => ?_, fun _ _ => rfl⟩
    rw [emitted_emit, if_pos rfl]
    exact Nat.succ_ne_zero _
  | answer status payload contentType hs =>
    exact h.answered (respond_state hs status payload contentType)
      (respond_bodyComplete s status payload contentType) (Act.grows (.answer _ _ _ hs))
  | hangUp => exact h.answered (hangUp_state hi) (hangUp_bodyComplete s) (hangUp_grows s)

theorem Acts.stilled (ha : Acts s t) (hi : s.Inv) (h : s.Stilled) : t.Stilled :=
  (ha.keep (P := fun u => u.Inv ∧ u.Stilled)
    (fun hact hu => ⟨hact.inv hu.1, hact.stilled hu.1 hu.2⟩) ⟨hi, h⟩).2

theorem Stilled.stamp (h : s.Stilled) : s.stamp.Stilled := by
  unfold Exchange.stamp
  split
  · exact { h with }
  · exact h

theorem parked_iff (hi : s.Inv) (h : s.Stilled) :
    s.Parked ↔ s.conn.bodyComplete = true ∧ s.conn.state ≠ .responded := by
  unfold Parked HttpConnection.hasResponded
  rw [beq_eq_false_iff_ne]
  refine and_congr_left fun _ => ⟨fun hready => ?_, h.whole⟩
  by_contra hpart
  exact hready (hi.part ((Bool.not_eq_true _).mp hpart))

section

variable [Qt]

/-- A timer is not armed by anything but a segment that comes in on a parked request. -/
theorem Stilled.next (hi : s.Inv) (h : s.Stilled) {e : ExchangeEvent} (he : s.Undisturbed e) :
    (s.next e).Stilled := by
  have hclock : (s.clock e).Stilled := by
    have hkeeps := clock_keeps s e
    refine ⟨fun hb => ?_, fun hb hs => ?_⟩
    · rw [clock_eq]
      exact h.whole (hkeeps.bodyComplete ▸ hb)
    · have hparked := (parked_iff hi h).2 ⟨hkeeps.bodyComplete ▸ hb, hkeeps.state ▸ hs⟩
      have hidle := h.idle (hkeeps.bodyComplete ▸ hb) (hkeeps.state ▸ hs)
      cases e with
      | readyRead data handlers => exact absurd hparked he
      | idleTimeout => rfl
      | headerDeadline | disconnected | reacts | network | tick => exact hidle
  exact ((handle_acts s e).stilled (clock_eq s e ▸ hi.keeps (clock_keeps s e)) hclock).stamp

/-- The header deadline is for a head that is not in. -/
theorem handle_headerDeadline (hs : s.conn.state ≠ .readingHeaders) :
    s.handle .headerDeadline = port.modify (fun c => { c with headerDeadline := none }) s := by
  change port.onHeaderDeadline s = _
  unfold Port.onHeaderDeadline
  exact if_neg hs

theorem Stilled.waits (hi : s.Inv) (h : s.Stilled) : s.Waits := by
  intro hp
  obtain ⟨hbody, hstate⟩ := (parked_iff hi h).1 hp
  have hidle := h.idle hbody hstate
  refine ⟨hidle, fun e he ht => ?_⟩
  cases e with
  | idleTimeout =>
    obtain ⟨due, hdue, -⟩ := ht
    rw [hidle] at hdue
    cases hdue
  | headerDeadline =>
    have hhead : s.conn.state ≠ .readingHeaders := fun hs =>
      Bool.noConfusion ((hi.head hs).1.symm.trans hbody)
    obtain ⟨hconn, hlog⟩ := stamp_conn (s.handle .headerDeadline)
    unfold Parked emitted Exchange.next
    rw [hconn, hlog, handle_headerDeadline hhead]
    exact hp
  | readyRead | disconnected | reacts | network | tick => exact he.elim

/-- A segment on a parked request arms the timer. -/
theorem not_waits (hi : s.Inv) (h : s.Stilled) (hp : s.Parked) (data : QByteArray)
    (handlers : Handlers) : ¬ (s.next (.readyRead data handlers)).Waits := by
  obtain ⟨hbody, -⟩ := (parked_iff hi h).1 hp
  have hhandled : s.handle (.readyRead data handlers) =
      port.modify (fun c => { c with idleTimer := some (c.now + c.idleInterval) }) s :=
    Host.onReadyRead_late (host handlers) data (.inr hbody)
  obtain ⟨hconn, hlog⟩ := stamp_conn (s.handle (.readyRead data handlers))
  intro hw
  have hnone := (hw (by
    unfold Parked emitted next
    rw [hconn, hlog, hhandled]
    exact hp)).1
  unfold next at hnone
  rw [hconn, hhandled] at hnone
  cases hnone

/-- The timers leave a parked request alone in every state of a timely run if and only if nothing
comes in on one. -/
theorem run_waits_iff : ∀ (events : List ExchangeEvent) {s : Exchange}, s.Inv → s.Stilled →
    ((∀ before, before <+: events → (before.foldl next s).Waits) ↔
      Lib.Allowed system Undisturbed s events)
  | [], s, hi, h => by
    refine ⟨fun _ => trivial, fun _ before hb => ?_⟩
    rw [List.prefix_nil.1 hb]
    exact h.waits hi
  | e :: events, s, hi, h => by
    have hcons : (∀ before, before <+: e :: events → (before.foldl next s).Waits) ↔
        ∀ before, before <+: events → (before.foldl next (s.next e)).Waits := by
      refine ⟨fun hall before hb => hall (e :: before) (List.prefix_cons_inj e |>.2 hb), ?_⟩
      intro hall before hb
      rcases List.prefix_cons_iff.1 hb with rfl | ⟨rest, rfl, hrest⟩
      · exact h.waits hi
      · exact hall rest hrest
    rw [hcons]
    by_cases he : s.Undisturbed e
    · rw [run_waits_iff events (hi.next e) (h.next hi he)]
      exact ⟨fun hrest => ⟨he, hrest⟩, fun hrest => hrest.2⟩
    · refine ⟨fun hall => ?_, fun hrest => absurd hrest.1 he⟩
      cases e with
      | readyRead data handlers =>
        exact absurd (hall [] (List.nil_prefix)) (not_waits hi h (not_not.1 he) data handlers)
      | idleTimeout | headerDeadline | disconnected | reacts | network | tick =>
        exact absurd trivial he

omit [Qt] in
theorem Start.stilled (h : Start s) : s.Stilled := by
  obtain ⟨now, address, certificate, rfl⟩ := h
  exact .of_part rfl

theorem parked_waits_iff (hs : Start s) (events : List ExchangeEvent) :
    (∀ before, before <+: events → (before.foldl next s).Waits) ↔
      Lib.Allowed system Undisturbed s events :=
  run_waits_iff events (Start.inv hs) (Start.stilled hs)

end

section

local instance parkedQt : Qt := Ascii.qt [] []

/-- A prepare-upload that waits for somebody to decide. -/
def prepare : ExchangeEvent :=
  .readyRead (ascii "POST /api/localsend/v2/prepare-upload HTTP/1.1" ++ crlf
      ++ ascii "Content-Length: 2" ++ crlf ++ crlf ++ ascii "\x7b\x7d")
    ⟨fun _ => [], fun _ => [], fun _ _ data => data.length⟩

def lateByte : ExchangeEvent :=
  .readyRead (ascii " ") ⟨fun _ => [], fun _ => [], fun _ _ data => data.length⟩

def phone : Exchange := accepted 0 (str "192.168.1.7") none

theorem phone_start : Start phone := ⟨_, _, _, rfl⟩

/-- Without another byte the request waits for an hour, and is accepted. -/
theorem hour_waits :
    Lib.Allowed system Undisturbed phone [prepare, .tick 3600000, .reacts (.respond 200 [] [])] ∧
      ∀ before, before <+: [prepare, .tick 3600000, .reacts (.respond 200 [] [])] →
        (before.foldl next phone).Waits :=
  ⟨by decide, (parked_waits_iff phone_start _).2 (by decide)⟩

/-- One more byte, and the parked request is answered with 408 a minute later. -/
theorem lateByte_times_out :
    let events := [prepare, lateByte, .tick IdleTimeoutMs, .idleTimeout]
    Lib.Allowed system Timely phone events ∧
      (¬ ∀ before, before <+: events → (before.foldl next phone).Waits) ∧
      (events.foldl next phone).emitted .requestReady = 1 ∧
      (events.foldl next phone).conn.responses.map Response.status = [408] := by
  refine ⟨by decide, fun hall => ?_, by decide, by decide⟩
  have hundisturbed := (run_waits_iff _ (Start.inv phone_start) (Start.stilled phone_start)).1 hall
  exact absurd hundisturbed (by decide)

end

/-! ## A refused request -/

/-- The connection drains from the instant it was answered, which is now as long as the answer is
not dated. -/
structure Drains (s : Exchange) : Prop where
  undated : s.conn.responses = [] → s.answeredAt = none
  drain : s.Refused → s.conn.connected = true →
    s.answeredAt.getD s.conn.now ≤ s.conn.now ∧
    s.conn.now ≤ s.answeredAt.getD s.conn.now + DrainTimeoutMs ∧
    s.conn.idleTimer = some (s.answeredAt.getD s.conn.now + DrainTimeoutMs) ∧
    s.conn.idleInterval = DrainTimeoutMs

/-- Nothing drains before the answer. -/
theorem Drains.of_silent (hr : s.conn.responses = []) (ha : s.answeredAt = none) : s.Drains :=
  ⟨fun _ => ha, fun hf => absurd hr hf.1⟩

theorem hangUp_answeredAt (s : Exchange) : (port.hangUp s).answeredAt = s.answeredAt := by
  unfold Port.hangUp Port.onDisconnected
  split <;> rfl

theorem Drains.hangUp (h : s.conn.responses = [] → s.answeredAt = none) :
    (port.hangUp s).Drains := by
  have hconn : (port.hangUp s).conn.responses = s.conn.responses ∧
      (port.hangUp s).conn.connected = false := by
    unfold Port.hangUp Port.onDisconnected
    split <;> exact ⟨rfl, rfl⟩
  refine ⟨fun hnone => ?_, fun _ hup => Bool.noConfusion (hconn.2.symm.trans hup)⟩
  rw [hangUp_answeredAt]
  exact h (hconn.1 ▸ hnone)

/-- The answer to a body that is still coming starts to drain. -/
theorem Drains.answer (hs : s.conn.state ≠ .responded) (hr : s.conn.responses = [])
    (ha : s.answeredAt = none) (status : Nat) (payload contentType : QByteArray) :
    (port.respond status payload contentType s).Drains := by
  rw [respond_eq hs]
  unfold Port.transmit
  split
  · extract_lets u v
    have hv : v.answeredAt = none := by
      simp only [v]
      split
      · exact (hangUp_answeredAt u).trans ha
      · exact ha
    split
    · rename_i hbody
      exact ⟨fun _ => hv, fun hf => Bool.noConfusion (hf.2.symm.trans hbody)⟩
    · refine ⟨fun _ => hv, fun _ _ => ?_⟩
      change v.answeredAt.getD v.conn.now ≤ v.conn.now ∧
        v.conn.now ≤ v.answeredAt.getD v.conn.now + DrainTimeoutMs ∧
        some (v.conn.now + DrainTimeoutMs) = some (v.answeredAt.getD v.conn.now + DrainTimeoutMs) ∧
        DrainTimeoutMs = DrainTimeoutMs
      rw [hv]
      exact ⟨le_rfl, Nat.le_add_right _ _, rfl, rfl⟩
  · exact .of_silent hr ha

theorem Act.drains (ha : Act s t) (hi : s.Inv) (h : s.Drains) : t.Drains := by
  have silent : ∀ {c : HttpConnection} {log : List Emission}, s.conn.state ≠ .responded →
      c.responses = s.conn.responses → Drains ⟨c, log, s.answeredAt⟩ := by
    intro c log hs hc
    have hnone := hi.silent hs
    exact .of_silent (hc.trans hnone) (h.undated hnone)
  cases ha with
  | change hc =>
    refine ⟨fun hnone => h.undated (hc.responses ▸ hnone), fun hf hup => ?_⟩
    have hclosed : ¬ s.conn.Open := fun ho => hf.1 (hc.responses.trans (hi.silent ho.1))
    obtain ⟨htimer, hinterval, hnow, hconn⟩ := hc.timer hclosed
    simp only [htimer, hinterval, hnow]
    exact h.drain ⟨hc.responses ▸ hf.1, hc.bodyComplete ▸ hf.2⟩ (hconn hup)
  | head hc => exact silent (fun hs => State.noConfusion (hc.1.symm.trans hs)) hc.2.responses
  | announce hc => exact silent (fun hs => State.noConfusion (hc.1.symm.trans hs)) hc.2.responses
  | write file data hb => exact silent hb.isOpen.1 rfl
  | deliver body received hb => exact silent hb.isOpen.1 rfl
  | complete hb => exact silent hb.isOpen.1 rfl
  | answer status payload contentType hs =>
    exact .answer hs (hi.silent hs) (h.undated (hi.silent hs)) status payload contentType
  | hangUp => exact .hangUp h.undated

theorem Acts.drains (ha : Acts s t) (hi : s.Inv) (h : s.Drains) : t.Drains :=
  (ha.keep (P := fun u => u.Inv ∧ u.Drains)
    (fun hact hu => ⟨hact.inv hu.1, hact.drains hu.1 hu.2⟩) ⟨hi, h⟩).2

/-- An answer is dated between two events. -/
def Dated (s : Exchange) : Prop := s.conn.responses ≠ [] → s.answeredAt ≠ none

theorem stamp_dated (s : Exchange) : s.stamp.Dated := by
  unfold Exchange.stamp
  split
  · exact fun _ => nofun
  · rename_i hn
    exact fun hr ha => hn ⟨ha, hr⟩

theorem Drains.stamp (h : s.Drains) : s.stamp.Drains := by
  unfold Exchange.stamp
  split
  · rename_i hn
    refine ⟨fun hr => absurd hr hn.2, fun hf hup => ?_⟩
    have hdrain := h.drain hf hup
    rw [hn.1] at hdrain
    exact hdrain
  · exact h

/-- Time passes up to the deadline at most, and is not put off. -/
theorem Drains.clock (h : s.Drains) (hd : s.Dated) {e : ExchangeEvent} (ht : s.Timely e)
    (hp : s.Prompt e) (hidle : e = .idleTimeout → s.conn.responses = []) : (s.clock e).Drains := by
  cases e with
  | readyRead data handlers =>
    simp only [Exchange.clock]
    split
    · refine ⟨h.undated, fun hf hup => ?_⟩
      obtain ⟨hle, hbound, -, hinterval⟩ := h.drain hf hup
      have hnow : s.answeredAt = some s.conn.now := hp hf
      refine ⟨hle, hbound, ?_, hinterval⟩
      change some (s.conn.now + s.conn.idleInterval) =
        some (s.answeredAt.getD s.conn.now + DrainTimeoutMs)
      rw [hinterval, hnow]
      rfl
    · exact h
  | idleTimeout => exact .of_silent (hidle rfl) (h.undated (hidle rfl))
  | tick ms =>
    refine ⟨h.undated, fun hf hup => ?_⟩
    obtain ⟨answered, ha⟩ := Option.ne_none_iff_exists'.1 (hd hf.1)
    obtain ⟨hle, -, htimer, hinterval⟩ := h.drain hf hup
    have hdue := ht.1 _ htimer
    change s.answeredAt.getD (s.conn.now + ms) ≤ s.conn.now + ms ∧
      s.conn.now + ms ≤ s.answeredAt.getD (s.conn.now + ms) + DrainTimeoutMs ∧
      s.conn.idleTimer = some (s.answeredAt.getD (s.conn.now + ms) + DrainTimeoutMs) ∧ _
    rw [ha, Option.getD_some] at hle htimer hdue ⊢
    exact ⟨by omega, hdue, htimer, hinterval⟩
  | headerDeadline | disconnected | reacts | network => exact h

section

variable [Qt]

theorem Drains.next (hi : s.Inv) (h : s.Drains) (hd : s.Dated) {e : ExchangeEvent}
    (ht : s.Timely e) (hp : s.Prompt e) : (s.next e).Drains := by
  by_cases hidle : e = .idleTimeout → s.conn.responses = []
  · have hclock := h.clock hd ht hp hidle
    exact ((handle_acts s e).drains (clock_eq s e ▸ hi.keeps (clock_keeps s e)) hclock).stamp
  -- the drain timer has run out
  · obtain ⟨rfl, hr⟩ := Classical.not_imp.1 hidle
    have hstate : s.conn.state = .responded := by
      by_contra hs
      exact hr (hi.silent hs)
    have hcut : s.handle .idleTimeout =
        port.hangUp (port.modify (fun c => { c with idleTimer := none }) s) := if_pos hstate
    unfold Exchange.next
    rw [hcut]
    refine Drains.stamp (.hangUp ?_)
    exact h.undated

omit [Qt] in
theorem Drains.bounded (h : s.Drains) (hd : s.Dated) : s.Bounded := by
  intro hf hup
  obtain ⟨answered, ha⟩ := Option.ne_none_iff_exists'.1 (hd hf.1)
  obtain ⟨-, hbound, -⟩ := h.drain hf hup
  rw [ha] at hbound
  exact ⟨answered, ha, hbound⟩

/-- In a timely run a refused request is cut when its time to drain is over, as long as nothing
comes in on it after the instant of the answer. -/
theorem refused_bounded (h : Lib.ReachedBy system (fun s e => s.Timely e ∧ s.Prompt e) s) :
    s.Bounded := by
  have hinv : s.Inv ∧ s.Drains ∧ s.Dated := by
    refine h.invariant (I := fun u => u.Inv ∧ u.Drains ∧ u.Dated) ?_ ?_
    · rintro u ⟨now, address, certificate, rfl⟩
      exact ⟨Start.inv ⟨_, _, _, rfl⟩, .of_silent rfl rfl, fun hr => absurd rfl hr⟩
    · rintro u e ⟨hi, hu, hd⟩ ⟨ht, hp⟩
      exact ⟨hi.next e, hu.next hi hd ht hp, stamp_dated _⟩
  exact hinv.2.1.bounded hinv.2.2

end

section

local instance refusedQt : Qt := Ascii.qt [] []

/-- The headers of a body that is refused. -/
def unwanted : ExchangeEvent :=
  .readyRead (ascii "POST / HTTP/1.1" ++ crlf ++ ascii "Content-Length: 9" ++ crlf ++ crlf)
    ⟨fun _ => [.respond 403 [] []], fun _ => [], fun _ _ data => data.length⟩

/-- The rest of the body comes along with the headers, and the connection is cut. -/
theorem unwanted_bounded :
    let events := [unwanted, lateByte, .tick DrainTimeoutMs, .idleTimeout]
    (events.foldl next phone).Bounded ∧ (events.foldl next phone).conn.connected = false := by
  intro events
  have hreached : Lib.ReachedBy system (fun s e => s.Timely e ∧ s.Prompt e)
      (events.foldl next phone) := .run events (.start phone_start) (by decide)
  exact ⟨refused_bounded hreached, by decide⟩

/-- A byte every four seconds, and the connection is served after eight. -/
theorem lateByte_holds :
    let events := [unwanted, .tick 4000, lateByte, .tick 4000, lateByte]
    Lib.Allowed system Timely phone events ∧ ¬ (events.foldl next phone).Bounded := by
  refine ⟨by decide, fun hb => ?_⟩
  obtain ⟨answered, ha, hle⟩ := hb (by decide) (by decide)
  have hzero : answered = 0 := Option.some.inj (ha.symm.trans (by decide))
  rw [hzero] at hle
  exact absurd hle (by decide)

end

end Exchange

end LocalSend
