import LocalSend.Receive.Proof.Lifecycle

/-!
# What a connection holds in memory

A head, a size line and the framing of a chunk are cut off at `MaxHeadSize`, so what is kept of them
and one more read stay within `MaxHeadSize + SocketReadBuffer` (`HttpConnection.Small`). A trailer
line is cut off only once it ends (`step_trailer`); as long as trailers stay within the bound,
everything does (`buffers_bounded`).
-/

set_option autoImplicit false

namespace LocalSend

namespace HttpConnection

/-- What is kept while more is waited for. -/
structure Small (c : HttpConnection) : Prop where
  buffer : c.buffer.length ≤ MaxHeadSize + SocketReadBuffer
  body : c.body.length ≤ MaxBufferedBody
  rests : c.Rests

theorem Small.unread {c c' : HttpConnection} (h : c.Small) (hu : c.Unread c') : c'.Small where
  buffer := by
    rw [hu.buffer]
    exact h.buffer
  body := by
    rw [hu.body]
    exact h.body
  rests hst hcomp := by
    have hrests := h.rests (fun hs => hst (hu.answered hs)) (hu.bodyComplete.symm.trans hcomp)
    unfold PastChunks at hrests ⊢
    rw [hu.chunked, hu.chunkState, hu.buffer]
    exact hrests

/-- A connection that does not wait for more. -/
theorem Small.of_done {c : HttpConnection}
    (hbuf : c.buffer.length ≤ MaxHeadSize + SocketReadBuffer) (hbody : c.body.length ≤ MaxBufferedBody)
    (h : c.state = .responded ∨ c.bodyComplete = true) : c.Small where
  buffer := hbuf
  body := hbody
  rests hst hcomp := by
    rcases h with h | h
    · exact absurd h hst
    · exact absurd (hcomp.symm.trans h) (by decide)

theorem Small.accepted (now : Nat) (address : QString) (certificate : Option QByteArray) :
    (accepted now address certificate).Small where
  buffer := Nat.zero_le _
  body := Nat.zero_le _
  rests _ _ := .inr (Nat.zero_le _)

/-- The read is of what a socket returns at most, and adds no more to an unfinished trailer than
fits the bound. -/
def HasRoom (c : HttpConnection) (data : QByteArray) : Prop :=
  data.length ≤ SocketReadBuffer ∧
    (c.state ≠ .responded → c.bodyComplete = false → c.PastChunks →
      c.buffer.length + data.length ≤ MaxHeadSize + SocketReadBuffer)

theorem Small.hasRoom {c : HttpConnection} (h : c.Small) {data : QByteArray} (hf : c.HasRoom data)
    (hst : c.state ≠ .responded) (hcomp : c.bodyComplete = false) :
    c.buffer.length + data.length ≤ MaxHeadSize + SocketReadBuffer := by
  rcases h.rests hst hcomp with hpast | hle
  · exact hf.2 hst hcomp hpast
  · exact Nat.add_le_add hle hf.1

end HttpConnection

namespace World

section
variable [Qt] {g : Guard} {w v : World} {i : ConnId}

/-- While `i` reads, with `data` in hand. -/
structure Filling (i : ConnId) (w : World) (data : QByteArray) (v : World) : Prop where
  reading : Reading i w data v
  body : (v.conns i).body.length ≤ MaxBufferedBody
  buffer : (v.conns i).buffer.length + data.length ≤ MaxHeadSize + SocketReadBuffer

/-- What the connection is now is all that matters. -/
theorem Filling.of_conn {data data' : QByteArray} {u : World} (h : Filling i w data v)
    (hr : Reading i w data' u) {c : HttpConnection} (hu : u.conns i = c)
    (hbody : c.body.length ≤ MaxBufferedBody)
    (hbuf : c.buffer.length + data'.length ≤ (v.conns i).buffer.length + data.length) :
    Filling i w data' u where
  reading := hr
  body := by
    rw [hu]
    exact hbody
  buffer := by
    rw [hu]
    exact Nat.le_trans hbuf h.buffer

theorem Filling.small {data : QByteArray} (h : Filling i w data v) {c : HttpConnection}
    (hu : (v.conns i).Unread c) (hst : c.state = .responded) : c.Small := by
  refine .of_done ?_ ?_ (.inl hst)
  · rw [hu.buffer]
    exact Nat.le_trans (Nat.le_add_right _ _) h.buffer
  · rw [hu.body]
    exact h.body

theorem Filling.respond {data : QByteArray} (h : Filling i w data v) (hi : i < v.nextConn)
    (status : Nat) (payload contentType : QByteArray) :
    (((port i).respond status payload contentType v).conns i).Small := by
  obtain ⟨hu, hst⟩ := respond_unread hi status payload contentType
  exact h.small hu hst

/-- A head is taken off what was read. -/
theorem Filling.head (h : Filling i w [] v) {c d : HttpConnection}
    (hbuf : c.buffer.length ≤ (v.conns i).buffer.length) (hbody : c.body = (v.conns i).body)
    (hu : c.Unread d) : d.buffer.length ≤ MaxHeadSize + SocketReadBuffer ∧
      d.body.length ≤ MaxBufferedBody := by
  rw [hu.buffer, hu.body, hbody]
  exact ⟨Nat.le_trans hbuf h.buffer, h.body⟩

theorem small_rule (h : w.Inv) (hl : w.live i = true) :
    (host i).Rule (Filling i w) (fun v => Stopped i w v ∧ (v.conns i).Small) := by
  have rule := host_rule h hl
  have born : ∀ {v data}, Filling i w data v → i < v.nextConn :=
    fun hI => hI.reading.1.born h (born_of_live hl)
  exact {
    get_bodyProgress := rule.get_bodyProgress
    get_write := rule.get_write
    stop := fun hI hrests => ⟨rule.stop hI.reading hrests, hI.buffer, hI.body, hrests⟩
    turn := fun hI hb ht => by
      refine hI.of_conn (rule.turn hI.reading hb ht) (conns_setConn _ _ _) ?_ ?_
      · rw [ht.body]
        exact hI.body
      · exact ht.shrinks
    take := fun {s} n hI hb => by
      refine hI.of_conn (rule.take n hI.reading hb) (conns_setConn _ _ _) hI.body ?_
      change ((s.conns i).buffer.drop n).length + ((s.conns i).buffer.take n).length ≤ _
      rw [List.length_drop, List.length_take, List.length_nil]
      omega
    respond := fun status payload contentType hI hb hs =>
      ⟨rule.respond status payload contentType hI.reading hb hs,
        hI.respond (born hI) status payload contentType⟩
    keep := fun {s data} hI hb hsink hroom => by
      refine hI.of_conn (rule.keep hI.reading hb hsink hroom)
        ((congrFun (conns_onBodyProgress i _) i).trans (conns_setConn _ _ _)) ?_ ?_
      · rw [List.length_append]
        exact hroom
      · exact Nat.add_le_add_left (Nat.zero_le _) _
    write := fun {s f data} hI hb hsink hroom hw => by
      have hconn : (s.write i f data).2.conns i = s.conns i := congrFun (conns_write i f data s) i
      refine hI.of_conn (rule.write hI.reading hb hsink hroom hw)
        ((congrFun (conns_onBodyProgress i _) i).trans (conns_setConn _ _ _)) ?_ ?_
      · change ((s.write i f data).2.conns i).body.length ≤ _
        rw [hconn]
        exact hI.body
      · change ((s.write i f data).2.conns i).buffer.length + 0 ≤ _
        rw [hconn]
        exact Nat.le_add_right _ _
    short := fun {s f data} hI hb hsink hroom hw => by
      refine ⟨rule.short hI.reading hb hsink hroom hw, ?_⟩
      have hconn : (s.write i f data).2.conns i = s.conns i := congrFun (conns_write i f data s) i
      have hborn : i < (s.write i f data).2.nextConn := by
        rw [nextConn_write]
        exact born hI
      obtain ⟨hu, hst⟩ := respond_unread hborn 500 [] jsonType
      rw [hconn] at hu
      exact hI.small hu hst
    longHead := fun hI hs hfin hlen =>
      ⟨rule.longHead hI.reading hs hfin hlen, hI.respond (born hI) 431 [] jsonType⟩
    badHead := fun {s c} hI hread => by
      obtain ⟨hstep, hst, hbuf, hbody⟩ := hread.step
      refine ⟨rule.badHead hI.reading hread, ?_⟩
      have hborn : i < s.nextConn := born hI
      obtain ⟨hu, hst⟩ := respond_unread (w := s.setConn i c) hborn 400 [] jsonType
      rw [conns_setConn] at hu
      obtain ⟨h1, h2⟩ := hI.head hbuf hbody hu
      exact .of_done h1 h2 (.inl hst)
    headers := fun {s c} hI hread hm => by
      obtain ⟨hstep, hst, hbuf, hbody⟩ := hread.step
      obtain ⟨hQ, hgo⟩ := rule.headers hI.reading hread hm
      have hnear : Near i w (s.setConn i c) :=
        hI.reading.1.trans (.setConn hstep hread.closedEmitted)
      have hset : (s.setConn i c).Inv := hnear.acts.inv h
      have hborn : i < s.nextConn := born hI
      have hb : ((s.setConn i c).conns i).InBody := by
        rw [conns_setConn]
        exact ⟨hst, hstep.bodyComplete.trans hI.reading.2⟩
      have hheads := onHeadersReady_heads hset (hnear.live h hl) hb
        ((hI.reading.1.acts.inv h).fresh i hread.1).2
      have hhead := (((hheads.acts.kept hset).2 i hborn).request (by
        rw [hb.1]
        exact State.noConfusion)).1
      have hu := hheads.unread
      rw [conns_setConn] at hu
      obtain ⟨h1, h2⟩ := hI.head hbuf hbody hu
      refine ⟨fun hne => ⟨hQ hne, .of_done h1 h2 (.inl ?_)⟩,
        fun hgoes => ⟨⟨(hgo hgoes).1, h2, h1⟩, (hgo hgoes).2⟩⟩
      change ((World.onHeadersReady i (s.setConn i c)).conns i).state = .responded
      cases hs : ((World.onHeadersReady i (s.setConn i c)).conns i).state with
      | readingHeaders => exact absurd hs hhead
      | readingBody => exact absurd hs hne
      | responded => rfl
    preflight := fun {s c} hI hread hm => by
      obtain ⟨hstep, hst, hbuf, hbody⟩ := hread.step
      refine ⟨rule.preflight hI.reading hread hm, ?_⟩
      have hborn : i < s.nextConn := born hI
      obtain ⟨hu, hst⟩ := respond_unread (w := s.setConn i c) hborn 204 [] []
      rw [conns_setConn] at hu
      obtain ⟨h1, h2⟩ := hI.head hbuf hbody hu
      exact .of_done h1 h2 (.inl hst) }

/-- A read that fits leaves a small connection small. -/
theorem heard_small (h : w.Inv) (hl : w.live i = true) (hs : (w.conns i).Small) {data : QByteArray}
    (hf : (w.conns i).HasRoom data) : ((w.heard i data).conns i).Small := by
  by_cases hlate : (w.conns i).state = .responded ∨ (w.conns i).bodyComplete = true
  · have heq : w.heard i data = w.setConn i { w.conns i with
        idleTimer := some ((w.conns i).now + (w.conns i).idleInterval) } :=
      Host.onReadyRead_late (host i).mute data hlate
    rw [heq, conns_setConn]
    exact hs.unread { HttpConnection.Unread.refl _ with }
  obtain ⟨hst, hc⟩ := not_or.1 hlate
  rw [Bool.not_eq_true] at hc
  have hget : ((host i).modify (HttpConnection.feed data) w).conns i =
      (w.conns i).feed data := conns_setConn _ _ _
  have hI : Filling i w [] ((host i).modify (HttpConnection.feed data) w) := {
    reading := by
      refine ⟨.setConn { HttpConnection.Step.refl _ with } rfl, ?_⟩
      rw [hget]
      exact hc
    body := by
      rw [hget]
      exact hs.body
    buffer := by
      rw [hget]
      change ((w.conns i).buffer ++ data).length + 0 ≤ _
      rw [List.length_append]
      exact hs.hasRoom hf hst hc }
  rcases (small_rule h hl).onReadyRead data hst hc hI with ⟨heq, hQ⟩ | ⟨s, hs, -, -, hr, -⟩
  · rw [show w.heard i data = _ from heq.symm]
    exact hQ.2
  · rw [show w.heard i data = _ from hr]
    change (World.conns (World.setConn i _ _) i).Small
    rw [conns_setConn]
    exact .of_done (Nat.zero_le _) hs.body (.inr rfl)

/-! ## Runs -/

/-- Every connection that has come in is small. -/
def Compact (w : World) : Prop := ∀ i, i < w.nextConn → (w.conns i).Small

/-- Every read fits. -/
def Fitting (w : World) (e : Event) : Prop :=
  ∀ i data, e = .readyRead i data → (w.conns i).HasRoom data

/-- Nobody reads. -/
def deaf : Guard := { Guard.all with reads := fun _ => False }

theorem Act.compact (ha : Act g w v) (hg : ∀ i, ¬ g.reads i) (h : w.Compact) : v.Compact := by
  intro i hi
  have old : i < w.nextConn → (v.conns i).Small := fun hi => (h i hi).unread (ha.unread hi (hg i)).2
  rcases ha.around.2 with hsame | ⟨-, ⟨-, hn⟩ | ⟨address, certificate, rfl⟩⟩
  · exact old (Nat.lt_of_lt_of_eq hi (congrArg (fun s => s.2.2.2) hsame))
  · exact old (Nat.lt_of_lt_of_eq hi hn)
  · rcases Nat.lt_succ_iff_lt_or_eq.1 hi with hi | rfl
    · exact old hi
    · rw [show (w.connect address certificate).conns w.nextConn = _ from Function.update_self _ _ _]
      exact .accepted _ _ _

theorem Acts.compact (ha : Acts deaf w v) (h : w.Compact) : v.Compact :=
  ha.keep (P := Compact) (fun hact hw => hact.compact (fun _ => id) hw) h

/-- One connection reads. -/
theorem Compact.heard (h : w.Compact) (hinv : w.Inv) (hl : w.live i = true) {data : QByteArray}
    (hf : (w.conns i).HasRoom data) : (w.heard i data).Compact := by
  have hacts := heard_acts hinv hl data
  have hnext : (w.heard i data).nextConn = w.nextConn :=
    congrArg (fun s => s.2.2.2) (hacts.surroundings id)
  intro j hj
  rw [hnext] at hj
  by_cases hji : j = i
  · subst hji
    exact heard_small hinv hl (h j hj) hf
  · exact (h j hj).unread (hacts.unread hj hji).2

theorem Compact.step (h : w.Compact) (hinv : w.Inv) {e : Event} (he : w.Fitting e) :
    (w.step e).Compact := by
  have quiet : (∀ i data, e ≠ .readyRead i data) → (w.step e).Compact := by
    intro hne
    refine Acts.compact (step_acts hinv e ?_) h
    exact {
      reads := fun i data heq => absurd heq (hne i data)
      outside := fun _ => trivial
      system := fun _ _ => trivial
      files := fun _ _ => trivial
      serves := fun i data heq => absurd heq (hne i data) }
  cases e with
  | readyRead i data =>
    by_cases hlive : w.live i = true
    · have hheard := h.heard hinv hlive (he i data rfl)
      by_cases hc : w.Completes i data
      · obtain ⟨hr, heq⟩ := hc.reads hinv
        rw [heq]
        refine Acts.compact (onRequestReady_acts (hr.acts.inv hinv) (hr.toNear.born hinv
          (born_of_live hlive)) hr.state hr.complete ?_) hheard
        exact ⟨fun _ => trivial, fun _ _ _ => trivial, fun _ _ _ => trivial⟩
      · rw [step_incomplete hinv hlive hc]
        exact hheard
    · rw [show w.step (.readyRead i data) = w from if_neg hlive]
      exact h
  | _ => exact quiet fun _ _ => Event.noConfusion

/-- In a run whose reads fit, what a connection holds in memory is bounded. -/
theorem buffers_bounded (h : Lib.ReachedBy system Fitting w) (hi : i < w.nextConn) :
    (w.conns i).buffer.length ≤ MaxHeadSize + SocketReadBuffer ∧
      (w.conns i).body.length ≤ MaxBufferedBody := by
  have hkeep : w.Inv ∧ w.Compact := by
    refine h.invariant (I := fun w => w.Inv ∧ w.Compact) (fun w hs => ⟨Start.inv hs, ?_⟩)
      fun w e hw he => ⟨(step_acts hw.1 e (permits_all w e)).inv hw.1, hw.2.step hw.1 he⟩
    intro i hi
    rw [hs.nextConn] at hi
    exact absurd hi (Nat.not_lt_zero i)
  exact ⟨(hkeep.2 i hi).buffer, (hkeep.2 i hi).body⟩

/-! ## A trailer line without an end -/

/-- Nothing limits a trailer line before it ends. -/
theorem step_trailer (hlive : w.live i = true) (hb : (w.conns i).InBody)
    (hch : (w.conns i).chunked = true) (hcs : (w.conns i).chunkState = .chunkTrailer)
    {data : QByteArray} (hnone : Lib.indexOf crlf ((w.conns i).buffer ++ data) = none) :
    w.step (.readyRead i data) = w.setConn i ((w.conns i).feed data) := by
  have hget : (host i).get (w.setConn i ((w.conns i).feed data)) = (w.conns i).feed data :=
    conns_setConn _ _ _
  have hopen : ¬ (((host i).get ((host i).modify (fun c => { c with
      idleTimer := some (c.now + c.idleInterval) }) w)).state = .responded ∨
      ((host i).get ((host i).modify (fun c => { c with
        idleTimer := some (c.now + c.idleInterval) }) w)).bodyComplete = true) := by
    rw [Port.get_modify]
    change ¬ ((w.conns i).state = .responded ∨ (w.conns i).bodyComplete = true)
    rw [hb.1, hb.2]
    decide
  have hturn : (host i).chunkTurn (w.setConn i ((w.conns i).feed data)) =
      (false, w.setConn i ((w.conns i).feed data)) := by
    unfold Host.chunkTurn
    rw [hget]
    simp only [HttpConnection.feed, hcs, hnone]
  rw [show w.step (.readyRead i data) = (host i).onReadyRead data w from if_pos hlive]
  unfold Host.onReadyRead
  simp only
  rw [if_neg hopen, Host.modify_feed]
  change (if ((host i).get (w.setConn i ((w.conns i).feed data))).state = .readingHeaders then _
    else (host i).consumeBody (w.setConn i ((w.conns i).feed data))) = _
  have hbody : ((w.conns i).feed data).InBody := hb
  have hchunked : ((w.conns i).feed data).chunked = true := hch
  rw [hget, hbody.1, if_neg State.noConfusion]
  unfold Host.consumeBody
  simp only [hget, hbody.1, hbody.2, hchunked, ne_eq, not_true_eq_false, Bool.false_eq_true,
    or_self, if_false, if_true]
  unfold Host.consumeChunkedBody
  rw [hturn]

end

section

local instance trailerQt : Qt := Ascii.qt [] []

/-- The head of a chunked body, and its zero chunk. -/
def zeroChunk : QByteArray :=
  ascii "POST /api/localsend/v2/register HTTP/1.1" ++ crlf ++ ascii "Transfer-Encoding: chunked"
    ++ crlf ++ crlf ++ ascii "0" ++ crlf

def trailerEvents : List Event := [
  .startListening,
  .connect (str "10.0.0.2") none,
  .readyRead 0 zeroChunk]

/-- The name of a trailer field comes in after the zero chunk. -/
def trailerBegun : List Event := trailerEvents ++ [.readyRead 0 (ascii "X-Sum")]

theorem trailer_bounded : ∃ w : World, w.nextConn = 1 ∧ (w.conns 0).PastChunks ∧
    (w.conns 0).buffer = ascii "X-Sum" ∧
    (w.conns 0).buffer.length ≤ MaxHeadSize + SocketReadBuffer ∧
      (w.conns 0).body.length ≤ MaxBufferedBody := by
  have hok : Lib.Allowed system Fitting helloStart trailerBegun := by
    refine ⟨?_, ?_, ?_, ?_, trivial⟩
    · rintro i data ⟨⟩
    · rintro i data ⟨⟩
    · rintro i data ⟨⟩
      refine ⟨by decide +kernel, fun _ _ hpast => absurd hpast.1 ?_⟩
      decide +kernel
    · rintro i data ⟨⟩
      exact ⟨by decide +kernel, fun _ _ _ => by decide +kernel⟩
  have hborn : (trailerBegun.foldl step helloStart).nextConn = 1 := by decide +kernel
  have hpast : ((trailerBegun.foldl step helloStart).conns 0).PastChunks := by
    unfold HttpConnection.PastChunks
    decide +kernel
  have hbuffer : ((trailerBegun.foldl step helloStart).conns 0).buffer = ascii "X-Sum" := by
    decide +kernel
  have hreached : Lib.ReachedBy system Fitting (trailerBegun.foldl step helloStart) :=
    Lib.ReachedBy.run _ (.start helloStart_start) hok
  exact ⟨_, hborn, hpast, hbuffer, buffers_bounded hreached (by rw [hborn]; decide)⟩

/-- No read is of more than a socket returns. -/
def Short (_ : World) (e : Event) : Prop :=
  ∀ i data, e = .readyRead i data → data.length ≤ SocketReadBuffer

/-- Every full read of a trailer line stays in the buffer. -/
theorem trailer_grows (n : Nat) : ∃ w : World, Lib.ReachedBy system Short w ∧ w.live 0 = true ∧
    (w.conns 0).InBody ∧ (w.conns 0).chunked = true ∧ (w.conns 0).chunkState = .chunkTrailer ∧
    (w.conns 0).buffer = List.replicate (n * SocketReadBuffer) 97 := by
  induction n with
  | zero =>
    have hok : Lib.Allowed system Short helloStart trailerEvents := by
      refine ⟨?_, ?_, ?_, trivial⟩
      · rintro i data ⟨⟩
      · rintro i data ⟨⟩
      · rintro i data ⟨⟩
        decide +kernel
    refine ⟨trailerEvents.foldl step helloStart, Lib.ReachedBy.run _ (.start helloStart_start) hok, ?_⟩
    rw [Nat.zero_mul]
    unfold HttpConnection.InBody
    decide +kernel
  | succ n ih =>
    obtain ⟨w, hw, hlive, hb, hch, hcs, hbuf⟩ := ih
    have hlong : (w.conns 0).buffer ++ List.replicate SocketReadBuffer 97 =
        List.replicate ((n + 1) * SocketReadBuffer) 97 := by
      rw [hbuf, List.replicate_append_replicate, Nat.succ_mul]
    have hnone : Lib.indexOf crlf ((w.conns 0).buffer ++ List.replicate SocketReadBuffer 97) =
        none := by
      rw [hlong]
      exact Lib.indexOf_eq_none_of_notMem fun h => absurd (List.eq_of_mem_replicate h) (by decide)
    have hstep := step_trailer hlive hb hch hcs hnone
    have hok : Short w (.readyRead 0 (List.replicate SocketReadBuffer 97)) := by
      rintro i data ⟨⟩
      rw [List.length_replicate]
    refine ⟨_, hw.next _ hok, ?_⟩
    rw [show system.next w (.readyRead 0 (List.replicate SocketReadBuffer 97)) = _ from hstep]
    have hget : (w.setConn 0 ((w.conns 0).feed (List.replicate SocketReadBuffer 97))).conns 0 = _ :=
      conns_setConn _ _ _
    unfold live at hlive ⊢
    rw [hget]
    exact ⟨hlive, hb, hch, hcs, hlong⟩

/-- Two full reads of a trailer line without an end, and the buffer is over the bound. -/
theorem trailer_unbounded : ∃ w : World, Lib.ReachedBy system Short w ∧
    MaxHeadSize + SocketReadBuffer < (w.conns 0).buffer.length := by
  obtain ⟨w, hw, -, -, -, -, hbuf⟩ := trailer_grows 2
  refine ⟨w, hw, ?_⟩
  rw [hbuf, List.length_replicate]
  decide

end

end World

end LocalSend
