import LocalSend.Http.Proof.HeadLimit
import LocalSend.Http.Proof.Tracked

/-!
# Which streams are delivered

Whatever a connection and its handlers do, what it has read is the scan of what has come
(`Framed`), so a request is delivered at the end of a well-framed stream, unless the class has
overlooked a fault. Conversely a stream up to its first fault, read in one go, is not refused
(`meek_rule`): when the fault is overlooked it is read on.
-/

set_option autoImplicit false

namespace LocalSend

namespace HttpConnection

/-- The decoder has not moved, and the head is as it was. -/
structure Unmoved (c c' : HttpConnection) : Prop where
  same : c.SameDecoder c'
  headers : c'.headers = c.headers
  bodyComplete : c'.bodyComplete = c.bodyComplete
  state : c'.state = c.state ∨ c'.state = .responded

theorem Unmoved.refl (c : HttpConnection) : c.Unmoved c :=
  ⟨⟨rfl, rfl, rfl, rfl, rfl, rfl⟩, rfl, rfl, .inl rfl⟩

theorem Unmoved.trans {c c' c'' : HttpConnection} (h : c.Unmoved c') (h' : c'.Unmoved c'') :
    c.Unmoved c'' where
  same := ⟨h'.same.buffer.trans h.same.buffer, h'.same.bodyReceived.trans h.same.bodyReceived,
    h'.same.chunked.trans h.same.chunked, h'.same.chunkState.trans h.same.chunkState,
    h'.same.chunkRemaining.trans h.same.chunkRemaining,
    h'.same.contentLength.trans h.same.contentLength⟩
  headers := h'.headers.trans h.headers
  bodyComplete := h'.bodyComplete.trans h.bodyComplete
  state := h'.state.elim (fun hs => h.state.imp hs.trans hs.trans) .inr

/-- The socket, what was answered, and where the body goes are as they were. -/
structure SameSocket (c c' : HttpConnection) : Prop where
  state : c'.state = c.state
  bodyComplete : c'.bodyComplete = c.bodyComplete
  connected : c'.connected = c.connected
  responses : c'.responses = c.responses
  sink : c'.sink = c.sink
  maxBodyBytes : c'.maxBodyBytes = c.maxBodyBytes

theorem Move.sameSocket {c c' : HttpConnection} (h : c.Move c') : c.SameSocket c' := by
  cases h <;> exact ⟨rfl, rfl, rfl, rfl, rfl, rfl⟩

theorem Takes.sameSocket {c c' : HttpConnection} {n : Nat} (h : c.Takes n c') : c.SameSocket c' := by
  cases h <;> exact ⟨rfl, rfl, rfl, rfl, rfl, rfl⟩

theorem Refuses.sameSocket {c c' : HttpConnection} {status : Nat} (h : c.Refuses status c') :
    c.SameSocket c' := by
  cases h <;> exact ⟨rfl, rfl, rfl, rfl, rfl, rfl⟩

/-- What is refused is in the buffer. -/
theorem Refuses.buffer_ne {c c' : HttpConnection} {status : Nat} (h : c.Refuses status c') :
    c.buffer ≠ [] := by
  intro hnil
  cases h with
  | longSize _ _ hlong =>
    rw [hnil, List.length_nil] at hlong
    exact absurd hlong (Nat.not_lt_zero _)
  | size _ heol _ =>
    have hle := Lib.indexOf_le heol
    rw [hnil, List.length_nil, show crlf.length = 2 from rfl] at hle
    omega
  | longTrailer _ heol _ =>
    have hle := Lib.indexOf_le heol
    rw [hnil, List.length_nil, show crlf.length = 2 from rfl] at hle
    omega

variable [Qt] in
theorem HeadRefused.connected {c c' : HttpConnection} (h : c.HeadRefused c') :
    c'.connected = c.connected := by
  obtain ⟨-, fin, -, hr⟩ := h
  obtain ⟨_, _, _, _, _, _, _, heq⟩ := Host.readHead_eq (c.buffer.take fin)
    { c with buffer := c.buffer.drop (fin + 4) }
  rw [hr] at heq
  rw [show c' = _ from heq]

variable [Qt] in
theorem HeadRead.connected {c c' : HttpConnection} (h : c.HeadRead c') :
    c'.connected = c.connected := by
  obtain ⟨-, fin, c₁, -, hr, rfl⟩ := h
  obtain ⟨_, _, _, _, _, _, _, heq⟩ := Host.readHead_eq (c.buffer.take fin)
    { c with buffer := c.buffer.drop (fin + 4) }
  rw [hr] at heq
  rw [show c₁ = _ from heq]

end HttpConnection

/-- What was read is what it was, and so is what it went to. -/
theorem Port.Tracked.unmoved {σ : Type} [Qt] {P : Port σ} {J : Judge} {Holds : QByteArray → σ → Prop}
    {b : QByteArray} {s t : σ} (h : P.Tracked J Holds b [] s) (hu : (P.get s).Unmoved (P.get t))
    (hd : ∀ d, Holds d s → Holds d t) : P.Tracked J Holds b [] t where
  head hs := by
    have hst : (P.get t).state = (P.get s).state := by
      refine hu.state.resolve_right fun hres => ?_
      exact State.noConfusion (hs.symm.trans hres)
    obtain ⟨hfresh, hbuf⟩ := h.head (hst.symm.trans hs)
    exact ⟨⟨hu.headers.trans hfresh.headers, hu.same.bodyReceived.trans hfresh.bodyReceived,
      hu.same.chunkState.trans hfresh.chunkState⟩, hbuf.trans hu.same.buffer.symm⟩
  body hb := by
    have hst : (P.get t).state = (P.get s).state := by
      refine hu.state.resolve_right fun hres => ?_
      exact State.noConfusion (hb.1.symm.trans hres)
    obtain ⟨a, ha, hread⟩ := h.body ⟨hst.symm.trans hb.1, hu.bodyComplete.symm.trans hb.2⟩
    exact ⟨a, ha.trans (congrArg (a ++ ·) hu.same.buffer.symm),
      hread.imp_right fun ⟨d, hs, hr⟩ => ⟨d, hd d hs, hr.congr hu.same⟩⟩

namespace Exchange

variable {s t : Exchange} {b : QByteArray}

/-! ## Nothing else moves the decoder -/

theorem hangUp_unmoved (s : Exchange) : s.conn.Unmoved (port.hangUp s).conn := by
  unfold Port.hangUp Port.onDisconnected
  split
  · exact ⟨⟨rfl, rfl, rfl, rfl, rfl, rfl⟩, rfl, rfl, .inl rfl⟩
  · exact ⟨⟨rfl, rfl, rfl, rfl, rfl, rfl⟩, rfl, rfl, .inr rfl⟩

theorem respond_unmoved (s : Exchange) (status : Nat) (payload contentType : QByteArray) :
    s.conn.Unmoved (port.respond status payload contentType s).conn := by
  by_cases hs : s.conn.state = .responded
  · have hr : port.respond status payload contentType s = s := if_pos hs
    rw [hr]
    exact .refl _
  · have hmark : s.conn.Unmoved s.marked.conn := ⟨⟨rfl, rfl, rfl, rfl, rfl, rfl⟩, rfl, rfl, .inr rfl⟩
    rw [respond_eq hs]
    unfold Port.transmit
    split
    · extract_lets u v
      have hu : s.conn.Unmoved u.conn := hmark.trans ⟨⟨rfl, rfl, rfl, rfl, rfl, rfl⟩, rfl, rfl, .inl rfl⟩
      have hv : s.conn.Unmoved v.conn := by
        simp only [v]
        split
        · exact hu.trans (hangUp_unmoved u)
        · exact hu
      split
      · exact hv.trans ⟨⟨rfl, rfl, rfl, rfl, rfl, rfl⟩, rfl, rfl, .inl rfl⟩
      · exact hv.trans ⟨⟨rfl, rfl, rfl, rfl, rfl, rfl⟩, rfl, rfl, .inl rfl⟩
    · exact hmark

theorem react_unmoved (s : Exchange) (r : Reaction) : s.conn.Unmoved (s.react r).conn := by
  cases r with
  | streamBodyTo file maxBytes =>
    change s.conn.Unmoved (port.streamBodyTo file maxBytes s).conn
    unfold Port.streamBodyTo
    extract_lets u
    have hu : s.conn.Unmoved u.conn := ⟨⟨rfl, rfl, rfl, rfl, rfl, rfl⟩, rfl, rfl, .inl rfl⟩
    split
    · exact hu.trans (respond_unmoved u 413 [] jsonType)
    · exact hu
  | respond status payload contentType => exact respond_unmoved s status payload contentType
  | addHeader name value => exact ⟨⟨rfl, rfl, rfl, rfl, rfl, rfl⟩, rfl, rfl, .inl rfl⟩

theorem reacts_unmoved : ∀ (rs : List Reaction) (s : Exchange),
    s.conn.Unmoved (rs.foldl react s).conn
  | [], _ => .refl _
  | r :: rs, s => (react_unmoved s r).trans (reacts_unmoved rs (s.react r))

theorem respond_responded (s : Exchange) (status : Nat) (payload contentType : QByteArray) :
    (port.respond status payload contentType s).conn.state = .responded := by
  by_cases hs : s.conn.state = .responded
  · have hr : port.respond status payload contentType s = s := if_pos hs
    rw [hr, hs]
  · exact respond_state hs status payload contentType

section
variable [Qt]

/-- An event that is no segment. -/
theorem handle_unmoved {e : ExchangeEvent} (he : ∀ data handlers, e ≠ .readyRead data handlers) :
    s.conn.Unmoved (s.handle e).conn := by
  cases e with
  | readyRead data handlers => exact absurd rfl (he data handlers)
  | idleTimeout =>
    change s.conn.Unmoved (port.onIdleTimeout s).conn
    unfold Port.onIdleTimeout
    extract_lets u
    have hu : s.conn.Unmoved u.conn := ⟨⟨rfl, rfl, rfl, rfl, rfl, rfl⟩, rfl, rfl, .inl rfl⟩
    split
    · exact hu.trans (hangUp_unmoved u)
    · exact hu.trans (respond_unmoved u 408 [] jsonType)
  | headerDeadline =>
    change s.conn.Unmoved (port.onHeaderDeadline s).conn
    unfold Port.onHeaderDeadline
    extract_lets u
    have hu : s.conn.Unmoved u.conn := ⟨⟨rfl, rfl, rfl, rfl, rfl, rfl⟩, rfl, rfl, .inl rfl⟩
    split
    · exact hu.trans (respond_unmoved u 408 [] jsonType)
    · exact hu
  | disconnected => exact hangUp_unmoved s
  | reacts r => exact react_unmoved s r
  | network hangsUp => exact ⟨⟨rfl, rfl, rfl, rfl, rfl, rfl⟩, rfl, rfl, .inl rfl⟩
  | tick ms => exact ⟨⟨rfl, rfl, rfl, rfl, rfl, rfl⟩, rfl, rfl, .inl rfl⟩

/-! ## Reading -/

/-- Until the request is in, it is not. -/
theorem incomplete_rule (h : Handlers) : (host h).Rule (fun _ t => t.conn.bodyComplete = false)
    (fun t => t.conn.bodyComplete = false) where
  get_bodyProgress _ := rfl
  get_write _ _ _ := rfl
  stop hI _ := hI
  turn hI _ ht := ht.bodyComplete.trans hI
  take _ hI _ := hI
  respond status payload contentType hI _ _ := (respond_bodyComplete _ status payload contentType).trans hI
  keep hI _ _ _ := hI
  write hI _ _ _ _ := hI
  short hI _ _ _ _ := (respond_bodyComplete _ 500 [] jsonType).trans hI
  longHead hI _ _ _ := (respond_bodyComplete _ 431 [] jsonType).trans hI
  badHead hI hread := (respond_bodyComplete _ 400 [] jsonType).trans (hread.keeps.bodyComplete.trans hI)
  headers := by
    intro t c hI hread _
    have hb : ((host h).headersReady { t with conn := c }).conn.bodyComplete = false :=
      (reacts_bodyComplete _ _).trans (hread.headIn.2.bodyComplete.trans hI)
    exact ⟨fun _ => hb, fun _ => ⟨hb, hb⟩⟩
  preflight hI hread _ :=
    (respond_bodyComplete _ 204 [] []).trans (hread.headIn.2.bodyComplete.trans hI)

/-- No claim is made about what is delivered. -/
abbrev Anything : QByteArray → Exchange → Prop := fun _ _ => True

theorem host_follows (h : Handlers) (I : QByteArray → Exchange → Prop) :
    (host h).Follows I Anything where
  answered c status payload contentType _ := respond_responded _ status payload contentType
  answeredShort f _ := respond_responded _ 500 [] jsonType
  announced {t c} _ _ _ := by
    have hr := reacts_unmoved (h.headersReady { t with conn := c })
      (emit .headersReady { t with conn := c })
    exact ⟨hr.same, hr.state⟩
  begins _ _ _ := trivial
  set _ _ := trivial
  bodyProgress _ := trivial
  keep _ _ _ _ := trivial
  write _ _ _ _ _ := trivial

/-- A request ends where the stream says, and this many bytes of a body came in it. -/
def Ends (b : QByteArray) (s : Exchange) : Prop :=
  (Judge.strict.scan b).phase = .complete ∧ (Judge.strict.scan b).body.length = s.conn.bodyReceived

/-- What a connection has read of `b` is what a scan reads of it. -/
structure Framed (b : QByteArray) (s : Exchange) : Prop where
  part : s.conn.bodyComplete = false → port.Rested .strict Anything b s
  whole : s.conn.bodyComplete = true → Judge.strict.Misreads b ∨ Ends b s

theorem Framed.unmoved (h : Framed b s) {t : Exchange} (hu : s.conn.Unmoved t.conn) :
    Framed b t where
  part hb := by
    obtain ⟨htracked, hfaults⟩ := h.part (hu.bodyComplete.symm.trans hb)
    rcases hu.state with hst | hst
    · exact ⟨htracked.unmoved hu fun _ hd => hd, fun hne => hfaults fun hs => hne (hst.trans hs)⟩
    · exact .of_responded hst
  whole hb := (h.whole (hu.bodyComplete.symm.trans hb)).imp_right fun hends =>
    ⟨hends.1, hends.2.trans hu.same.bodyReceived.symm⟩

theorem Framed.read (h : Framed b s) (data : QByteArray) (handlers : Handlers) :
    Framed (b ++ data) (s.handle (.readyRead data handlers)) := by
  change Framed (b ++ data) ((host handlers).onReadyRead data s)
  by_cases hb : s.conn.bodyComplete = true
  · rw [Host.onReadyRead_late (host handlers) data (.inr hb)]
    refine ⟨fun hno => absurd (hb.symm.trans hno) (by decide), fun _ => ?_⟩
    refine (h.whole hb).imp (·.append data) fun hends => ?_
    unfold Ends
    rw [Judge.complete_append hends.1]
    exact hends
  have hb := Bool.eq_false_iff.2 hb
  by_cases hs : s.conn.state = .responded
  · rw [Host.onReadyRead_late (host handlers) data (.inl hs)]
    exact ⟨fun _ => .of_responded hs, fun hyes => absurd (hb.symm.trans hyes) (by decide)⟩
  rcases (incomplete_rule handlers).onReadyRead_tracked (host_follows handlers _) Judge.strict_sound
    (h.part hb).toTracked data hs hb hb with ⟨-, hQ, hrest⟩ | ⟨u, d, -, -, hscan, hr, hready⟩
  · exact ⟨fun _ => hrest, fun hyes => absurd (hQ.symm.trans hyes) (by decide)⟩
  · have hun : u.conn.completed.Unmoved ((host handlers).onReadyRead data s).conn := by
      rw [hready]
      exact reacts_unmoved (handlers.requestReady (port.modify HttpConnection.completed u))
        ((port.modify HttpConnection.completed u).emit .requestReady)
    refine ⟨fun hno => Bool.noConfusion (hun.bodyComplete.symm.trans hno),
      fun _ => hscan.imp_right fun ⟨_, hlen, hscan⟩ => ?_⟩
    unfold Ends
    rw [hscan]
    exact ⟨rfl, hlen.trans hun.same.bodyReceived.symm⟩

/-- What an event brings. -/
def brings : ExchangeEvent → QByteArray
  | .readyRead data _ => data
  | _ => []

/-- What has come to a connection. -/
def received (events : List ExchangeEvent) : QByteArray := events.flatMap brings

omit [Qt] in
theorem received_concat (events : List ExchangeEvent) (e : ExchangeEvent) :
    received (events ++ [e]) = received events ++ brings e := by
  unfold received
  rw [List.flatMap_append, List.flatMap_singleton]

omit [Qt] in
theorem stamp_unmoved (s : Exchange) : s.conn.Unmoved s.stamp.conn := by
  rw [(stamp_conn s).1]
  exact .refl _

theorem Framed.run (hs : Start s) (events : List ExchangeEvent) :
    Framed (received events) (events.foldl next s) := by
  induction events using List.reverseRecOn with
  | nil =>
    obtain ⟨now, address, certificate, rfl⟩ := hs
    exact ⟨fun _ => ⟨⟨fun _ => ⟨⟨rfl, rfl, rfl⟩, rfl⟩, fun hb => State.noConfusion hb.1⟩, fun _ _ hf => by cases hf⟩,
      fun hb => Bool.noConfusion hb⟩
  | append_singleton events e ih =>
    rw [received_concat, List.foldl_append, List.foldl_cons, List.foldl_nil]
    refine Framed.unmoved ?_ (stamp_unmoved _)
    cases e with
    | readyRead data handlers => exact ih.read data handlers
    | _ =>
      change Framed (received events ++ []) _
      rw [List.append_nil]
      exact ih.unmoved (handle_unmoved nofun)

/-! ## Nobody else answers -/

/-- Nobody has answered yet, and an answer would be written. -/
structure Ready (s : Exchange) : Prop where
  isOpen : s.conn.Open
  connected : s.conn.connected = true
  silent : s.conn.responses = []

/-- The statuses of a body that is at fault, and of a size that is over a limit. -/
def Refusal (status : Nat) : Prop := status = 400 ∨ status = 413 ∨ status = 431

/-- None of these handlers answers before the request is in, and the sink takes everything. -/
structure Meek (h : Handlers) : Prop where
  heads : ∀ s, ∀ r ∈ h.headersReady s, ∀ status payload contentType,
    r ≠ .respond status payload contentType
  takes : ∀ s f data, h.takes s f data = data.length

/-- Whatever is sent goes to the sink. -/
def Greedy (h : Handlers) : Prop := ∀ s, h.headersReady s = [.streamBodyTo 0 (-1)]

/-- The reader has answered; where it takes bodies of any length (`G`), not because of a fault that
is overlooked and comes just now. -/
structure TurnedDown (G : Prop) (b : QByteArray) (s : Exchange) : Prop where
  state : s.conn.state = .responded
  answer : ∃ status, s.conn.responses.map Response.status = [status] ∧ Refusal status
  fault : G → ¬ Judge.strict.Misreads b ∨ ∃ a, a <+: b ∧ a ≠ b ∧ Judge.strict.Misreads a

/-- Reading goes on, or the reader has answered, or there is no body to read. -/
inductive Outcome (G : Prop) (b : QByteArray) (s : Exchange) : Prop
  | waits : s.Ready → Outcome G b s
  | refused : TurnedDown G b s → Outcome G b s
  | bodiless : s.conn.state = .responded → (Judge.strict.scan b).phase = .bodiless → Outcome G b s

omit [Qt] in
theorem Ready.of_conn (h : s.Ready) (hs : t.conn.state ≠ .responded)
    (hb : t.conn.bodyComplete = s.conn.bodyComplete) (hc : t.conn.connected = s.conn.connected)
    (hr : t.conn.responses = s.conn.responses) : t.Ready where
  isOpen := ⟨hs, hb.trans h.isOpen.2⟩
  connected := hc.trans h.connected
  silent := hr.trans h.silent

omit [Qt] in
theorem Ready.same (h : s.Ready) (hs : s.conn.SameSocket t.conn) : t.Ready :=
  h.of_conn (fun hres => h.isOpen.1 (hs.state.symm.trans hres)) hs.bodyComplete hs.connected
    hs.responses

/-- An answer of the reader. -/
theorem Ready.refuse {G : Prop} (hr : s.Ready) {status : Nat} (hs : Refusal status)
    (hfault : G → ¬ Judge.strict.Misreads b ∨ ∃ a, a <+: b ∧ a ≠ b ∧ Judge.strict.Misreads a) :
    Outcome G b (port.fail status s) :=
  .refused ⟨respond_responded s status [] jsonType,
    ⟨status, respond_status hr.isOpen.1 hr.connected hr.silent status [] jsonType, hs⟩, hfault⟩

omit [Qt] in
/-- Of the things that are not answers, only a limit is answered. -/
theorem Ready.reacts {rs : List Reaction}
    (hrs : ∀ r ∈ rs, ∀ status payload contentType, r ≠ .respond status payload contentType)
    (h : s.Ready ∨ (s.conn.state = .responded ∧ s.conn.responses.map Response.status = [413])) :
    (rs.foldl react s).Ready ∨ ((rs.foldl react s).conn.state = .responded ∧
      (rs.foldl react s).conn.responses.map Response.status = [413]) := by
  induction rs generalizing s with
  | nil => exact h
  | cons r rs ih =>
    refine ih (fun q hq => hrs q (List.mem_cons_of_mem _ hq)) ?_
    cases r with
    | respond status payload contentType =>
      exact absurd rfl (hrs _ List.mem_cons_self status payload contentType)
    | addHeader name value =>
      exact h.imp_left fun hr => hr.of_conn hr.isOpen.1 rfl rfl rfl
    | streamBodyTo file maxBytes =>
      change Ready (port.streamBodyTo file maxBytes s) ∨ _
      rw [show s.react (.streamBodyTo file maxBytes) = port.streamBodyTo file maxBytes s from rfl]
      unfold Port.streamBodyTo
      extract_lets u
      have hu : u.Ready ∨ (u.conn.state = .responded ∧
          u.conn.responses.map Response.status = [413]) :=
        h.imp_left fun hr => hr.of_conn hr.isOpen.1 rfl rfl rfl
      split
      · right
        rcases hu with hu | ⟨hs, hu⟩
        · exact ⟨respond_responded u 413 [] jsonType,
            respond_status hu.isOpen.1 hu.connected hu.silent 413 [] jsonType⟩
        · have hsame : port.fail 413 u = u := if_pos hs
          rw [hsame]
          exact ⟨hs, hu⟩
      · exact hu

/-- Where the sink is unlimited, and a limit does not matter. -/
def Unlimited (G : Prop) (c : HttpConnection) : Prop :=
  G → c.sink ≠ none ∧ c.maxBodyBytes < 0

omit [Qt] in
theorem Unlimited.same {G : Prop} {c c' : HttpConnection} (hl : Unlimited G c)
    (hs : c.SameSocket c') : Unlimited G c' := by
  intro hg
  rw [hs.sink, hs.maxBodyBytes]
  exact hl hg

omit [Qt] in
theorem Unlimited.hasRoom {G : Prop} {c : HttpConnection} {n : Nat} (hl : Unlimited G c)
    (hg : G) : ¬ c.NoRoom n := by
  obtain ⟨hsink, hmax⟩ := hl hg
  unfold HttpConnection.NoRoom
  obtain ⟨f, hf⟩ := Option.ne_none_iff_exists'.1 hsink
  rw [hf]
  simp only
  omega

/-- What a meek handler makes of a stream. -/
theorem meek_rule {h : Handlers} (hm : Meek h) {G : Prop} (hgreedy : G → Greedy h)
    (b : QByteArray) :
    (host h).FineRule (fun data t => t.Ready ∧ port.Tracked .strict Anything b data t ∧
        (t.conn.InBody → Unlimited G t.conn))
      (Outcome G b) where
  get_bodyProgress _ := rfl
  get_write _ _ _ := rfl
  keep := by
    rintro t data ⟨hr, ht, hl⟩ hb _ _
    exact ⟨hr.of_conn hr.isOpen.1 rfl rfl rfl, ht.deliver hb (t.conn.body ++ data) rfl fun _ => trivial,
      fun _ => hl hb⟩
  write := by
    rintro t f data ⟨hr, ht, hl⟩ hb _ _ _
    exact ⟨hr.of_conn hr.isOpen.1 rfl rfl rfl, ht.deliver hb t.conn.body rfl fun _ => trivial,
      fun _ => hl hb⟩
  short := by
    rintro t f data - - - - hw
    exact absurd (hm.takes t f data) hw
  longHead := by
    rintro t ⟨hr, ht, -⟩ hs hnone hlong
    refine hr.refuse (.inr (.inr rfl)) fun _ => .inl ?_
    rintro ⟨f, hf, -⟩
    obtain ⟨-, rfl⟩ := ht.head hs
    cases hf.symm.trans (congrArg Scan.phase (Judge.scan_head hnone))
  badHead := by
    rintro t c ⟨hr, ht, -⟩ hread
    obtain ⟨hfresh, rfl⟩ := ht.head hread.1
    have hkeeps : t.conn.Keeps c := hread.keeps
    have hready : Ready { t with conn := c } := by
      refine hr.of_conn ?_ hkeeps.bodyComplete hread.connected hkeeps.responses
      exact fun hs => hr.isOpen.1 (hkeeps.state.symm.trans hs)
    refine hready.refuse (.inl rfl) fun _ => .inl ?_
    rintro ⟨f, hf, -⟩
    cases hf.symm.trans (hread.scan hfresh)
  headers := by
    rintro t c ⟨hr, ht, -⟩ hread hmethod
    obtain ⟨hst, hkeeps⟩ := hread.headIn
    have hready : Ready (emit .headersReady { t with conn := c }) := by
      refine hr.of_conn ?_ hkeeps.bodyComplete hread.connected hkeeps.responses
      exact fun hs => State.noConfusion (hkeeps.state.symm.trans hs)
    have hstate : c.state = .readingBody := hkeeps.state
    have hout := Ready.reacts (hm.heads { t with conn := c }) (.inl hready)
    have hun := reacts_unmoved (h.headersReady { t with conn := c })
      (emit .headersReady { t with conn := c })
    change (((host h).headersReady { t with conn := c }).conn.state ≠ .readingBody → _) ∧ _
    have hfree : G → (((host h).headersReady { t with conn := c }).conn =
        { c with sink := some 0, maxBodyBytes := -1 }) := by
      intro hg
      change ((h.headersReady { t with conn := c }).foldl react _).conn = _
      rw [hgreedy hg]
      rfl
    refine ⟨fun hne => ?_, fun hgoes => ⟨⟨?_, ?_, fun _ hg => ?_⟩, ?_⟩⟩
    · rcases hout with hready' | ⟨hres, hanswer⟩
      · exact absurd (hun.state.resolve_right hready'.isOpen.1) fun heq => hne (heq.trans hstate)
      · refine .refused ⟨hres, ⟨413, hanswer, .inr (.inl rfl)⟩, fun hg => ?_⟩
        rw [hfree hg] at hne
        exact absurd hstate hne
    · refine hout.resolve_right fun hres => ?_
      exact State.noConfusion (hgoes.symm.trans hres.1)
    · exact Port.Tracked.headers ht Judge.strict_sound (host_follows h fun _ _ => True) trivial hread
        hmethod hgoes
    · change ((host h).headersReady { t with conn := c }).conn.sink ≠ none ∧
        ((host h).headersReady { t with conn := c }).conn.maxBodyBytes < 0
      rw [hfree hg]
      exact ⟨nofun, Int.negSucc_lt_zero 0⟩
    · exact hun.bodyComplete.trans (hkeeps.bodyComplete.trans hr.isOpen.2)
  preflight := by
    rintro t c ⟨hr, ht, -⟩ hread hmethod
    obtain ⟨hfresh, rfl⟩ := ht.head hread.1
    exact .bodiless (respond_responded _ 204 [] []) (hread.scan_preflight hfresh hmethod)
  stop := fun hI _ => .waits hI.1
  move := by
    rintro t c ⟨hr, ht, hl⟩ hb hc hmove
    exact ⟨hr.same hmove.sameSocket, ht.move Judge.strict_sound (fun _ _ => trivial) hb hc hmove,
      fun _ => (hl hb).same hmove.sameSocket⟩
  goAhead := by
    rintro t ⟨hr, ht, hl⟩ hb
    have hsame : t.conn.SameSocket { t.conn with sent := t.conn.sent ++ [.continue100] } :=
      ⟨rfl, rfl, rfl, by simp [HttpConnection.responses, Message.response?], rfl, rfl⟩
    exact ⟨hr.same hsame, ht.goAhead (fun _ _ => trivial) hb, fun _ => (hl hb).same hsame⟩
  take := by
    rintro t c n ⟨hr, ht, hl⟩ hb htake
    exact ⟨hr.same htake.sameSocket, ht.take (fun _ _ => trivial) hb htake,
      fun _ => (hl hb).same htake.sameSocket⟩
  refuse := by
    rintro t c status ⟨hr, ht, hl⟩ hb hc hrefuse
    have hready : Ready { t with conn := c } := hr.same hrefuse.sameSocket
    have hstatus : Refusal status := by
      cases hrefuse with
      | longSize | size => exact .inl rfl
      | longTrailer => exact .inr (.inr rfl)
    refine hready.refuse hstatus fun _ => ?_
    obtain ⟨a, rfl, hmiss | ⟨d, -, hread⟩⟩ := ht.body hb
    · refine .inr ⟨a, List.prefix_append _ _, fun heq => hrefuse.buffer_ne ?_, hmiss⟩
      exact List.append_cancel_left (heq.symm.trans (List.append_nil a).symm)
    · exact .inl (hrefuse.reads Judge.strict_sound hc hread)
  tooLong := by
    rintro t data ⟨hr, ht, hl⟩ hb hno
    exact hr.refuse (.inr (.inl rfl)) fun hg => absurd hno ((hl hb).hasRoom hg)

/-! ## Runs in which nobody else answers -/

/-- Neither a handler nor a timer answers, and nobody hangs up. -/
def Silent : ExchangeEvent → Prop
  | .readyRead _ handlers => Meek handlers
  | .reacts (.addHeader _ _) | .network _ | .tick _ => True
  | _ => False

/-- What becomes of a stream in such a run. -/
inductive Fate (b : QByteArray) (s : Exchange) : Prop
  | goes : Outcome False b s → Fate b s
  | complete : s.conn.bodyComplete = true → Fate b s

theorem Fate.congr (h : Fate b s) (hstate : t.conn.state = s.conn.state)
    (hbody : t.conn.bodyComplete = s.conn.bodyComplete)
    (hconn : t.conn.connected = s.conn.connected)
    (hresp : t.conn.responses = s.conn.responses) : Fate b t := by
  cases h with
  | goes ho =>
    refine .goes ?_
    cases ho with
    | waits hr => exact .waits (hr.of_conn (hstate ▸ hr.isOpen.1) hbody hconn hresp)
    | refused hr =>
      obtain ⟨hst, hanswer, -⟩ := hr
      exact .refused ⟨hstate.trans hst, hresp ▸ hanswer, False.elim⟩
    | bodiless hst hphase => exact .bodiless (hstate.trans hst) hphase
  | complete hb => exact .complete (hbody.trans hb)

/-- What is answered or complete is not read on. -/
theorem Fate.late (h : Fate b s) (data : QByteArray) (handlers : Handlers)
    (hlate : s.conn.state = .responded ∨ s.conn.bodyComplete = true) :
    Fate (b ++ data) (s.handle (.readyRead data handlers)) := by
  have hread : s.handle (.readyRead data handlers) =
      port.modify (fun c => { c with idleTimer := some (c.now + c.idleInterval) }) s :=
    Host.onReadyRead_late (host handlers) data hlate
  rw [hread]
  refine Fate.congr (s := s) ?_ rfl rfl rfl rfl
  cases h with
  | goes ho =>
    refine .goes ?_
    cases ho with
    | waits hr => exact absurd hlate (not_or.2 ⟨hr.isOpen.1, by rw [hr.isOpen.2]; decide⟩)
    | refused hr => exact .refused ⟨hr.state, hr.answer, False.elim⟩
    | bodiless hst hphase =>
      refine .bodiless hst ?_
      rw [Judge.scan_append, Judge.foldl_over _ (.inr (.inl hphase)), hphase]
  | complete hb => exact .complete hb

/-- A segment that a meek handler reads. -/
theorem Ready.reads {h : Handlers} (hm : Meek h) {G : Prop} (hgreedy : G → Greedy h) (hr : s.Ready)
    (ht : port.Tracked .strict Anything b [] s) (data : QByteArray)
    (hl : s.conn.InBody → Unlimited G s.conn) :
    Outcome G (b ++ data) ((host h).onReadyRead data s) ∨
      ((host h).onReadyRead data s).emitted .requestReady ≠ 0 ∧
        ((host h).onReadyRead data s).conn.bodyComplete = true := by
  have hfed : Ready (port.modify (HttpConnection.feed data) s) ∧
      port.Tracked .strict Anything (b ++ data) [] (port.modify (HttpConnection.feed data) s) ∧
      ((port.modify (HttpConnection.feed data) s).conn.InBody →
        Unlimited G (port.modify (HttpConnection.feed data) s).conn) :=
    ⟨hr.of_conn hr.isOpen.1 rfl rfl rfl, ht.feed (fun _ _ => trivial) data, hl⟩
  rcases (meek_rule hm hgreedy (b ++ data)).onReadyRead data hr.isOpen.1 hr.isOpen.2 hfed with
    ⟨-, hout⟩ | ⟨t, -, -, -, hmute, hready⟩
  · exact .inl hout
  · right
    rw [hready]
    have hgrows := (reacts_acts (h.requestReady ((host h).mute.onReadyRead data s))
      (((host h).mute.onReadyRead data s).emit .requestReady)).grows
    have hmono := emitted_mono .requestReady hgrows
    rw [emitted_emit, if_pos rfl] at hmono
    refine ⟨?_, ?_⟩
    · change emitted .requestReady ((h.requestReady _).foldl react _) ≠ 0
      omega
    · rw [hmute]
      exact reacts_bodyComplete _ _

theorem Fate.read (hf : Framed b s) (h : Fate b s) {data : QByteArray} {handlers : Handlers}
    (hm : Meek handlers) : Fate (b ++ data) (s.handle (.readyRead data handlers)) := by
  by_cases hlate : s.conn.state = .responded ∨ s.conn.bodyComplete = true
  · exact h.late data handlers hlate
  · cases h with
    | goes ho =>
      cases ho with
      | waits hr =>
        have ht := (hf.part hr.isOpen.2).toTracked
        rcases hr.reads hm (G := False) False.elim ht data fun _ => False.elim with hout | ⟨-, hb⟩
        · exact .goes hout
        · exact .complete hb
      | refused hr => exact absurd (.inl hr.state) hlate
      | bodiless hst _ => exact absurd (.inl hst) hlate
    | complete hb => exact absurd (.inr hb) hlate

theorem Fate.handle (hf : Framed b s) (h : Fate b s) {e : ExchangeEvent} (he : Silent e) :
    Fate (b ++ brings e) (s.handle e) := by
  cases e with
  | readyRead data handlers => exact h.read hf he
  | idleTimeout | headerDeadline | disconnected => exact absurd he id
  | reacts r =>
    cases r with
    | addHeader name value =>
      change Fate (b ++ []) _
      rw [List.append_nil]
      exact h.congr rfl rfl rfl rfl
    | streamBodyTo | respond => exact absurd he id
  | network hangsUp =>
    change Fate (b ++ []) _
    rw [List.append_nil]
    exact h.congr rfl rfl rfl rfl
  | tick ms =>
    change Fate (b ++ []) _
    rw [List.append_nil]
    exact h.congr rfl rfl rfl rfl

theorem Fate.run (hs : Start s) {events : List ExchangeEvent}
    (hevents : ∀ e ∈ events, Silent e) : Fate (received events) (events.foldl next s) := by
  induction events using List.reverseRecOn with
  | nil =>
    obtain ⟨now, address, certificate, rfl⟩ := hs
    exact .goes (.waits ⟨⟨nofun, rfl⟩, rfl, rfl⟩)
  | append_singleton events e ih =>
    rw [received_concat, List.foldl_append, List.foldl_cons, List.foldl_nil]
    have hfate : Fate (received events) (events.foldl next s) :=
      ih fun d hd => hevents d (List.mem_append_left _ hd)
    have hhandled := hfate.handle (Framed.run hs events)
      (hevents e (List.mem_append_right _ (List.mem_singleton_self e)))
    have hconn := (stamp_conn (Exchange.handle (events.foldl next s) e)).1
    exact hhandled.congr (congrArg _ hconn) (congrArg _ hconn) (congrArg _ hconn)
      (congrArg HttpConnection.responses hconn)

/-! ## What is delivered -/

/-- What has come, `b`, is delivered only as a request that ends where the stream says; what is at
fault is answered. -/
structure Strict (b : QByteArray) (s : Exchange) : Prop where
  delivered : s.emitted .requestReady ≠ 0 → Ends b s
  refused : ∀ f, (Judge.strict.scan b).phase = .faulty f → s.conn.state = .responded

/-- The answer to a fault. -/
def Answered (b : QByteArray) (s : Exchange) : Prop :=
  ∀ f, (Judge.strict.scan b).phase = .faulty f →
    ∃ status, s.conn.responses.map Response.status = [status] ∧ Refusal status

/-- All of it, in every run that brings `b` or the beginning of it. -/
def WellFramedOnly (b : QByteArray) : Prop :=
  ∀ s events, Start s → received events <+: b →
    Strict (received events) (events.foldl next s) ∧
      ((∀ e ∈ events, Silent e) → Answered (received events) (events.foldl next s))

theorem Framed.strict (hf : Framed b s) (hi : s.Inv) (hb : ¬ Judge.strict.Misreads b)
    (hover : ∀ f, (Judge.strict.scan b).phase = .faulty f → f.overlooked = false) : Strict b s where
  delivered hne := by
    have hcomplete : s.conn.bodyComplete = true :=
      eq_true_of_ne_false fun hpart => hne (hi.part hpart)
    exact (hf.whole hcomplete).resolve_left hb
  refused f hfault := by
    by_contra hst
    cases hcomplete : s.conn.bodyComplete with
    | false =>
      have hyes := (hf.part hcomplete).faults hst f hfault
      exact Bool.noConfusion ((hover f hfault).symm.trans hyes)
    | true =>
      have hends := (hf.whole hcomplete).resolve_left hb
      cases hends.1.symm.trans hfault

theorem Fate.answered (h : Fate b s) (hs : Strict b s) (hf : Framed b s)
    (hb : ¬ Judge.strict.Misreads b) : Answered b s := by
  intro f hfault
  cases h with
  | goes ho =>
    cases ho with
    | waits hr => exact absurd (hs.refused f hfault) hr.isOpen.1
    | refused hr => exact hr.answer
    | bodiless _ hphase => cases hphase.symm.trans hfault
  | complete hcomplete => cases ((hf.whole hcomplete).resolve_left hb).1.symm.trans hfault

/-- A stream with a fault that is overlooked has a shortest part with one. -/
theorem shortest_misread (h : Judge.strict.Misreads b) : ∃ a, a <+: b ∧ Judge.strict.Misreads a ∧
    ∀ a', a' <+: a → a' ≠ a → ¬ Judge.strict.Misreads a' := by
  induction b using List.reverseRecOn with
  | nil => exact ⟨[], List.prefix_rfl, h, fun a' ha hne => absurd (List.prefix_nil.1 ha) hne⟩
  | append_singleton b x ih =>
    by_cases hb : Judge.strict.Misreads b
    · obtain ⟨a, ha, hmin⟩ := ih hb
      exact ⟨a, ha.trans (List.prefix_append _ _), hmin⟩
    · refine ⟨b ++ [x], List.prefix_rfl, h, fun a' ha hne hmiss => hb ?_⟩
      obtain ⟨l, rfl⟩ := (List.prefix_concat_iff.1 ha).resolve_left hne
      exact hmiss.append l

/-- A handler that takes whatever is sent. -/
def greedy : Handlers :=
  ⟨fun _ => [.streamBodyTo 0 (-1)], fun _ => [], fun _ _ data => data.length⟩

omit [Qt] in
theorem greedy_meek : Meek greedy where
  heads s r hr status payload contentType heq := by
    rw [List.mem_singleton.1 hr] at heq
    cases heq
  takes _ _ _ := rfl

/-- Only well-framed requests are delivered, if and only if the first fault in the framing of a
stream is not one that the class overlooks. -/
theorem well_framed_only_iff (b : QByteArray) :
    WellFramedOnly b ↔ ∀ f, (Judge.strict.scan b).phase = .faulty f → f.overlooked = false := by
  constructor
  · intro h f hfault
    by_contra hover
    obtain ⟨a, ha, hmiss, hmin⟩ := shortest_misread ⟨f, hfault, eq_true_of_ne_false hover⟩
    obtain ⟨g, hg, _⟩ := id hmiss
    have hstart : Start caller := caller_start
    have hready : Ready caller := ⟨⟨nofun, rfl⟩, rfl, rfl⟩
    have ht := ((Framed.run hstart []).part rfl).toTracked
    have hone : received [.readyRead a greedy] = a := List.append_nil a
    have hstrict := (h caller [.readyRead a greedy] hstart (by rwa [hone])).1
    rw [hone] at hstrict
    have hconn := stamp_conn ((host greedy).onReadyRead a caller)
    have hst : ((host greedy).onReadyRead a caller).conn.state = .responded := by
      rw [← hconn.1]
      exact hstrict.refused g hg
    rcases hready.reads greedy_meek (G := True) (fun _ _ => rfl) ht a
      (fun hb => State.noConfusion hb.1) with hout | ⟨hdelivered, -⟩
    · cases hout with
      | waits hr => exact hr.isOpen.1 hst
      | refused hr =>
        rcases hr.fault trivial with hno | ⟨a', ha', hne, hmiss'⟩
        · exact hno hmiss
        · exact hmin a' ha' hne hmiss'
      | bodiless _ hphase => cases hphase.symm.trans hg
    · have hends := hstrict.delivered ?_
      · cases hends.1.symm.trans hg
      · change emitted .requestReady (stamp ((host greedy).onReadyRead a caller)) ≠ 0
        rw [emitted, hconn.2]
        exact hdelivered
  · intro hover s events hs hprefix
    obtain ⟨rest, rfl⟩ := hprefix
    have hkeep : ∀ f, (Judge.strict.scan (received events)).phase = .faulty f →
        f.overlooked = false := fun f hf => hover f (Judge.faulty_append hf rest)
    have hread : ¬ Judge.strict.Misreads (received events) := by
      rintro ⟨f, hf, hyes⟩
      exact Bool.noConfusion ((hkeep f hf).symm.trans hyes)
    have hframed := Framed.run hs events
    have hinv : Inv (events.foldl next s) := reached_inv (.run_any events (.start hs))
    have hstrict := hframed.strict hinv hread hkeep
    exact ⟨hstrict, fun hevents => (Fate.run hs hevents).answered hstrict hframed hread⟩

end

section

local instance mangledQt : Qt := Ascii.qt [] []

/-- After the five bytes of its chunk come two others where the line should end. -/
def mangled : QByteArray :=
  ascii "POST / HTTP/1.1" ++ crlf ++ ascii "Transfer-Encoding: chunked" ++ crlf ++ crlf
    ++ ascii "5" ++ crlf ++ ascii "helloXX0" ++ crlf ++ crlf

theorem mangled_delivered :
    let s := [.readyRead mangled greedy].foldl next caller
    (Judge.strict.scan mangled).phase = .faulty (.ending (ascii "XX")) ∧
      s.emitted .requestReady = 1 ∧ s.conn.responses = [] ∧ ¬ WellFramedOnly mangled := by
  refine ⟨by decide +kernel, by decide +kernel, by decide +kernel, fun h => ?_⟩
  have hone : received [.readyRead mangled greedy] = mangled := List.append_nil mangled
  have hstrict := (h caller [.readyRead mangled greedy] caller_start (by rw [hone])).1
  rw [hone] at hstrict
  exact absurd (hstrict.refused (.ending (ascii "XX")) (by decide +kernel)) (by decide +kernel)

end

end Exchange

end LocalSend
