import LocalSend.Http.Proof.Moves

/-!
# A rule for reading

`Host.Rule H I Q` is for an `I` to which it does not matter how a body is framed: the decoder's own
fields change in some way (`Turn`), bytes are taken off the buffer, and whatever is refused is
answered. It gives a `FineRule`. The connection itself changes only as `HttpConnection.Step` allows:
its request is fixed once the head is in.
-/

set_option autoImplicit false

namespace LocalSend

def Response.Success (r : Response) : Prop := r.status / 100 = 2

/-- How a connection changes by itself: outside the sink, the handler's choice of it, and answers
that report success. -/
structure HttpConnection.Step (c c' : HttpConnection) : Prop where
  address : c'.peerAddress = c.peerAddress
  certificate : c'.peerCertificate = c.peerCertificate
  sink : c'.sink = c.sink
  maxBodyBytes : c'.maxBodyBytes = c.maxBodyBytes
  request : c.state ≠ .readingHeaders →
    c'.method = c.method ∧ c'.path = c.path ∧ c'.query = c.query ∧ c'.headers = c.headers
  reading : c'.state = .readingHeaders → c.state = .readingHeaders
  answered : c.state = .responded → c'.state = .responded
  bodyComplete : c'.bodyComplete = c.bodyComplete
  complete : c.bodyComplete = true → c'.body = c.body ∧ c'.bodyReceived = c.bodyReceived
  received : c.sink ≠ none → c'.bodyReceived = c.bodyReceived
  sent : ∃ l, c'.sent = c.sent ++ l ∧ ∀ r, Message.response r ∈ l → ¬ r.Success

namespace HttpConnection.Step

variable {c c' c'' : HttpConnection}

theorem refl (c : HttpConnection) : c.Step c where
  address := rfl
  certificate := rfl
  sink := rfl
  maxBodyBytes := rfl
  request _ := ⟨rfl, rfl, rfl, rfl⟩
  reading h := h
  answered h := h
  bodyComplete := rfl
  complete _ := ⟨rfl, rfl⟩
  received _ := rfl
  sent := ⟨[], (List.append_nil _).symm, by simp⟩

theorem trans (h : c.Step c') (h' : c'.Step c'') : c.Step c'' where
  address := h'.address.trans h.address
  certificate := h'.certificate.trans h.certificate
  sink := h'.sink.trans h.sink
  maxBodyBytes := h'.maxBodyBytes.trans h.maxBodyBytes
  request hs := by
    obtain ⟨h1, h2, h3, h4⟩ := h.request hs
    obtain ⟨h5, h6, h7, h8⟩ := h'.request fun hr => hs (h.reading hr)
    exact ⟨h5.trans h1, h6.trans h2, h7.trans h3, h8.trans h4⟩
  reading hs := h.reading (h'.reading hs)
  answered hs := h'.answered (h.answered hs)
  bodyComplete := h'.bodyComplete.trans h.bodyComplete
  complete hc := by
    obtain ⟨h1, h2⟩ := h.complete hc
    obtain ⟨h3, h4⟩ := h'.complete (h.bodyComplete.trans hc)
    exact ⟨h3.trans h1, h4.trans h2⟩
  received hs := (h'.received (by rwa [h.sink])).trans (h.received hs)
  sent := by
    obtain ⟨l, hl, hr⟩ := h.sent
    obtain ⟨l', hl', hr'⟩ := h'.sent
    refine ⟨l ++ l', by rw [hl', hl, List.append_assoc], fun r hm => ?_⟩
    exact (List.mem_append.1 hm).elim (hr r) (hr' r)

/-- A connection that is done with reading. -/
theorem of_responded (h : c.Step { c' with state := c.state }) (hs : c'.state = .responded) :
    c.Step c' :=
  { h with
    reading := fun hr => absurd (hs.symm.trans hr) State.noConfusion
    answered := fun _ => hs }

/-- Whoever ends up as answered may as well be marked as answered first. -/
theorem mark_first (h : c.Step c') (hs : c'.state = .responded) (hr : c.state ≠ .readingHeaders) :
    HttpConnection.Step { c with state := .responded } c' :=
  { h with
    request := fun _ => h.request hr
    reading := fun hr' => absurd (hs.symm.trans hr') State.noConfusion
    answered := fun _ => hs }

end HttpConnection.Step

/-- What the first line of a request asks for. -/
def HttpConnection.title (c : HttpConnection) :
    QString × QString × AList fun _ : QString => QString := (c.method, c.path, c.query)

/-- A step that leaves what was read to the decoder. -/
structure HttpConnection.Idle (c c' : HttpConnection) : Prop extends c.Step c' where
  state : c'.state = c.state ∨ c'.state = .responded
  title : c'.title = c.title
  headers : c'.headers = c.headers
  buffer : c'.buffer = c.buffer
  body : c'.body = c.body
  bodyReceived : c'.bodyReceived = c.bodyReceived
  contentLength : c'.contentLength = c.contentLength
  chunked : c'.chunked = c.chunked
  chunkState : c'.chunkState = c.chunkState
  chunkRemaining : c'.chunkRemaining = c.chunkRemaining

namespace HttpConnection.Idle

variable {c c' c'' : HttpConnection}

theorem refl (c : HttpConnection) : c.Idle c :=
  { Step.refl c with
    state := .inl rfl
    title := rfl
    headers := rfl
    buffer := rfl
    body := rfl
    bodyReceived := rfl
    contentLength := rfl
    chunked := rfl
    chunkState := rfl
    chunkRemaining := rfl }

theorem trans (h : c.Idle c') (h' : c'.Idle c'') : c.Idle c'' :=
  { h.toStep.trans h'.toStep with
    state := h'.state.elim (fun hs => h.state.imp hs.trans hs.trans) .inr
    title := h'.title.trans h.title
    headers := h'.headers.trans h.headers
    buffer := h'.buffer.trans h.buffer
    body := h'.body.trans h.body
    bodyReceived := h'.bodyReceived.trans h.bodyReceived
    contentLength := h'.contentLength.trans h.contentLength
    chunked := h'.chunked.trans h.chunked
    chunkState := h'.chunkState.trans h.chunkState
    chunkRemaining := h'.chunkRemaining.trans h.chunkRemaining }

theorem of_responded (h : c.Idle { c' with state := c.state }) (hs : c'.state = .responded) :
    c.Idle c' :=
  { h with
    toStep := Step.of_responded h.toStep hs
    state := .inr hs }

theorem mark_first (h : c.Idle c') (hs : c'.state = .responded) (hr : c.state ≠ .readingHeaders) :
    HttpConnection.Idle { c with state := .responded } c' :=
  { h with
    toStep := h.toStep.mark_first hs hr
    state := .inl hs }

end HttpConnection.Idle

/-- The last chunk has been read. -/
def HttpConnection.PastChunks (c : HttpConnection) : Prop :=
  c.chunked = true ∧ (c.chunkState = .chunkTrailer ∨ c.chunkState = .chunkDone)

/-- Where reading stops: what is kept until more comes is a head or a size line at most. -/
def HttpConnection.Rests (c : HttpConnection) : Prop :=
  c.state ≠ .responded → c.bodyComplete = false → c.PastChunks ∨ c.buffer.length ≤ MaxHeadSize

/-- A change to the decoder's own fields. The buffer of a body of known length only shrinks by what
is delivered. -/
structure HttpConnection.Turn (c c' : HttpConnection) : Prop extends c.Step c' where
  state : c'.state = c.state
  chunked : c'.chunked = c.chunked
  shrinks : c'.buffer.length ≤ c.buffer.length
  body : c'.body = c.body
  bodyReceived : c'.bodyReceived = c.bodyReceived
  responses : c'.responses = c.responses
  closedEmitted : c'.closedEmitted = c.closedEmitted
  sized : c.chunked = false → c'.buffer = c.buffer ∧ c'.contentLength = c.contentLength

theorem HttpConnection.Turn.refl (c : HttpConnection) : c.Turn c :=
  { HttpConnection.Step.refl c with
    state := rfl
    chunked := rfl
    shrinks := le_rfl
    body := rfl
    bodyReceived := rfl
    responses := rfl
    closedEmitted := rfl
    sized := fun _ => ⟨rfl, rfl⟩ }

theorem HttpConnection.Turn.inBody {c c' : HttpConnection} (h : c.Turn c') (hb : c.InBody) :
    c'.InBody := ⟨h.state.trans hb.1, h.bodyComplete.trans hb.2⟩

/-- The buffer of a chunked body shrinks by its framing too. -/
theorem HttpConnection.Turn.of_chunked {c c' : HttpConnection} (hc : c.chunked = true)
    (hle : c'.buffer.length ≤ c.buffer.length)
    (h : c.Turn { c' with
      buffer := c.buffer
      contentLength := c.contentLength }) : c.Turn c' :=
  { h with
    shrinks := hle
    sized := fun hf => absurd (hc.symm.trans hf) (by decide) }

variable {σ : Type}

/-- What the surroundings of a connection have to satisfy. -/
structure Host.Rule [Qt] (H : Host σ) (I : QByteArray → σ → Prop) (Q : σ → Prop) : Prop
    extends H.Slots I Q where
  stop : ∀ {s}, I [] s → (H.get s).Rests → Q s
  turn : ∀ {s c}, I [] s → (H.get s).InBody → (H.get s).Turn c → I [] (H.set c s)
  take : ∀ {s} n, I [] s → (H.get s).InBody →
    I ((H.get s).buffer.take n) (H.modify (fun c => { c with buffer := c.buffer.drop n }) s)
  respond : ∀ {s data} status payload contentType, I data s → (H.get s).InBody →
    status / 100 ≠ 2 → Q (H.respond status payload contentType s)

theorem HttpConnection.Stops.rests {c : HttpConnection} (h : c.Stops) : c.Rests := by
  intro _ _
  cases h with
  | head _ _ hlen => exact .inr hlen
  | size _ _ _ _ hlen => exact .inr hlen
  | data _ _ _ hbuf =>
    right
    simp [hbuf]
  | ending _ _ _ hlen => exact .inr (Nat.le_trans (Nat.le_of_lt hlen) (by decide))
  | trailer _ hc hcs => exact .inl ⟨hc, .inl hcs⟩
  | done _ hc hcs => exact .inl ⟨hc, .inr hcs⟩
  | sized _ _ _ hbuf =>
    right
    simp [hbuf]

theorem HttpConnection.Move.turn {c c' : HttpConnection} (hc : c.chunked = true) (h : c.Move c') :
    c.Turn c' := by
  cases h with
  | size => exact .of_chunked hc (List.drop_sublist _ _).length_le { Turn.refl c with }
  | dataEnd => exact { Turn.refl c with }
  | ending => exact .of_chunked hc (List.drop_sublist _ _).length_le { Turn.refl c with }
  | trailer => exact .of_chunked hc (List.drop_sublist _ _).length_le { Turn.refl c with }
  | last => exact .of_chunked hc (List.drop_sublist _ _).length_le { Turn.refl c with }

theorem HttpConnection.Refuses.turn {c c' : HttpConnection} {status : Nat} (hc : c.chunked = true)
    (h : c.Refuses status c') : c.Turn c' ∧ status / 100 ≠ 2 := by
  cases h with
  | longSize => exact ⟨Turn.refl c, by decide⟩
  | size =>
    exact ⟨.of_chunked hc (List.drop_sublist _ _).length_le { Turn.refl c with }, by decide⟩
  | longTrailer => exact ⟨{ Turn.refl c with }, by decide⟩

namespace Host.Rule

variable [Qt] {H : Host σ} {I : QByteArray → σ → Prop} {Q : σ → Prop} {s : σ}

theorem fine (h : H.Rule I Q) : H.FineRule I Q :=
  { h.toSlots with
    stop := fun hI hs => h.stop hI hs.rests
    move := fun hI hb hc hm => h.turn hI hb (hm.turn hc)
    goAhead := fun hI hb => h.turn hI hb { HttpConnection.Turn.refl _ with
      sent := ⟨[.continue100], rfl, by simp⟩
      responses := by simp [HttpConnection.responses, Message.response?] }
    take := fun {s c} n hI hb ht => by
      cases ht with
      | sized => exact h.take n hI hb
      | chunk =>
        have hI' := h.turn (c := { H.get s with
          chunkRemaining := (H.get s).chunkRemaining - n }) hI hb
          { HttpConnection.Turn.refl _ with }
        have ht := h.take n hI' (by rw [Port.get_set]; exact hb)
        simpa only [Port.get_set, Port.modify, Port.set_set] using ht
    refuse := fun hI hb hc hr => by
      obtain ⟨hturn, hstatus⟩ := hr.turn hc
      refine h.respond _ _ _ (h.turn hI hb hturn) ?_ hstatus
      rw [Port.get_set]
      exact hturn.inBody hb
    tooLong := fun hI hb _ => h.respond 413 _ _ hI hb (by decide) }

theorem split_consumeBody (h : H.Rule I Q) (hI : I [] s) (hb : (H.get s).InBody) :
    H.Split I Q (H.consumeBody s) (H.mute.consumeBody s) :=
  h.fine.split_consumeBody hI hb

/-- A segment that is read: from `I` of the connection with its segment to `Q`, or to the handler. -/
theorem onReadyRead (h : H.Rule I Q) (data : QByteArray) (hst : (H.get s).state ≠ .responded)
    (hcomp : (H.get s).bodyComplete = false) (hI : I [] (H.modify (HttpConnection.feed data) s)) :
    H.Split I Q (H.onReadyRead data s) (H.mute.onReadyRead data s) :=
  h.fine.onReadyRead data hst hcomp hI

end Host.Rule

theorem Host.readHead_step [Qt] (head : QByteArray) {c : HttpConnection}
    (hc : c.state = .readingHeaders) :
    c.Step (Port.readHead head c).1 ∧ (Port.readHead head c).1.state = c.state ∧
      (Port.readHead head c).1.buffer = c.buffer ∧ (Port.readHead head c).1.body = c.body := by
  have hreq : ¬ c.state ≠ .readingHeaders := not_not.2 hc
  obtain ⟨method, path, query, headers, headerDeadline, chunked, contentLength, heq⟩ :=
    Host.readHead_eq head c
  rw [heq]
  exact ⟨{ HttpConnection.Step.refl c with request := fun h => absurd h hreq }, rfl, rfl, rfl⟩

theorem HttpConnection.HeadRefused.closedEmitted [Qt] {c c' : HttpConnection}
    (h : c.HeadRefused c') : c'.closedEmitted = c.closedEmitted := by
  obtain ⟨-, fin, -, hr⟩ := h
  obtain ⟨_, _, _, _, _, _, _, heq⟩ := Host.readHead_eq (c.buffer.take fin)
    { c with buffer := c.buffer.drop (fin + 4) }
  rw [hr] at heq
  rw [show c' = _ from heq]

theorem HttpConnection.HeadRead.closedEmitted [Qt] {c c' : HttpConnection} (h : c.HeadRead c') :
    c'.closedEmitted = c.closedEmitted := by
  obtain ⟨-, fin, c₁, -, hr, rfl⟩ := h
  obtain ⟨_, _, _, _, _, _, _, heq⟩ := Host.readHead_eq (c.buffer.take fin)
    { c with buffer := c.buffer.drop (fin + 4) }
  rw [hr] at heq
  rw [show c₁ = _ from heq]

/-- A head that is refused is read all the same. -/
theorem HttpConnection.HeadRefused.step [Qt] {c c' : HttpConnection} (h : c.HeadRefused c') :
    c.Step c' ∧ c'.state = .readingHeaders ∧ c'.buffer.length ≤ c.buffer.length ∧
      c'.body = c.body := by
  obtain ⟨hst, fin, -, hr⟩ := h
  obtain ⟨hstep, hstate, hbuf, hbody⟩ := Host.readHead_step (c.buffer.take fin)
    (c := { c with buffer := c.buffer.drop (fin + 4) }) hst
  rw [hr] at hstep hstate hbuf hbody
  refine ⟨{ hstep with }, hstate.trans hst, ?_, hbody⟩
  rw [show c'.buffer = _ from hbuf]
  exact (List.drop_sublist _ _).length_le

/-- The head of a request is read in one step. -/
theorem HttpConnection.HeadRead.step [Qt] {c c' : HttpConnection} (h : c.HeadRead c') :
    c.Step c' ∧ c'.state = .readingBody ∧ c'.buffer.length ≤ c.buffer.length ∧
      c'.body = c.body := by
  obtain ⟨hst, fin, c₁, -, hr, rfl⟩ := h
  obtain ⟨hstep, hstate, hbuf, hbody⟩ := Host.readHead_step (c.buffer.take fin)
    (c := { c with buffer := c.buffer.drop (fin + 4) }) hst
  rw [hr] at hstep hstate hbuf hbody
  refine ⟨{ hstep with
    request := fun hs => absurd hst hs
    reading := fun hs => State.noConfusion hs
    answered := fun hs => absurd (hst.symm.trans hs) State.noConfusion }, rfl, ?_, hbody⟩
  change c₁.buffer.length ≤ _
  rw [hbuf]
  exact (List.drop_sublist _ _).length_le

end LocalSend
