import LocalSend.Http.Proof.Once

/-!
# The limit on a head

The size of the buffer is looked at only where no blank line was found in it, so whether a head that
is too long is refused depends on how it is cut into reads: it is if and only if after one of them
the buffer is over the limit and the blank line is not there yet (`TooLong`). `Phase` is where a
connection is after some reads.
-/

set_option autoImplicit false

namespace LocalSend

namespace Exchange

/-- What reading stops at, with 431. -/
def TooLong (stream : QByteArray) : Prop :=
  MaxHeadSize < stream.length ∧ Lib.indexOf (crlf ++ crlf) stream = none

/-- The head is refused for its size, and none of the request is handed out. -/
def RefusesHead (s : Exchange) : Prop :=
  s.conn.responses.map Response.status = [431] ∧ s.emitted .headersReady = 0 ∧
    s.emitted .requestReady = 0

/-- The bytes of some reads. -/
def bytes (reads : List (QByteArray × Handlers)) : QByteArray := (reads.map Prod.fst).flatten

/-- One segment after the other, each with its handlers. -/
def readAll [Qt] (reads : List (QByteArray × Handlers)) (s : Exchange) : Exchange :=
  reads.foldl (fun s read => s.next (.readyRead read.1 read.2)) s

/-- The head has not been refused for its size, and will not be. -/
def Passed (s : Exchange) : Prop :=
  s.emitted .headersReady ≠ 0 ∨
    s.conn.state = .responded ∧ s.conn.responses.map Response.status ≠ [431]

inductive Phase (reads : List (QByteArray × Handlers)) (s : Exchange) : Prop
  | waits : s.conn.state = .readingHeaders → s.conn.connected = true →
      s.conn.buffer = bytes reads → (bytes reads).length ≤ MaxHeadSize →
      Lib.indexOf (crlf ++ crlf) (bytes reads) = none → Phase reads s
  | refused : s.RefusesHead → s.conn.state = .responded →
      (∃ before, before <+: reads ∧ TooLong (bytes before)) → Phase reads s
  | passed : s.Passed → (∀ before, before <+: reads → ¬ TooLong (bytes before)) →
      Lib.indexOf (crlf ++ crlf) (bytes reads) ≠ none → Phase reads s

variable {s t : Exchange} {reads : List (QByteArray × Handlers)}

/-! ## Answers -/

theorem hangUp_conn (s : Exchange) : (port.hangUp s).conn.responses = s.conn.responses ∧
    ∀ x, x ≠ .closed → (port.hangUp s).emitted x = s.emitted x := by
  unfold Port.hangUp Port.onDisconnected
  split
  · exact ⟨rfl, fun _ _ => rfl⟩
  · exact ⟨rfl, fun x hx => emitted_other hx.symm⟩

/-- An answer emits nothing of a request. -/
theorem respond_emitted (hs : s.conn.state ≠ .responded) (status : Nat)
    (payload contentType : QByteArray) {x : Signal} (hx : x ≠ .closed) :
    (port.respond status payload contentType s).emitted x = s.emitted x :=
  respond_keep (P := fun u => u.emitted x = s.emitted x) hs status payload contentType rfl
    (fun _ => rfl) (fun hu => ((hangUp_conn _).2 x hx).trans hu) fun hu _ => hu

/-- A connection that is up and has not answered gives the answer it is told to. -/
theorem respond_status (hs : s.conn.state ≠ .responded) (hc : s.conn.connected = true)
    (hr : s.conn.responses = []) (status : Nat) (payload contentType : QByteArray) :
    (port.respond status payload contentType s).conn.responses.map Response.status = [status] := by
  rw [respond_eq hs]
  unfold Port.transmit
  split
  · extract_lets u v
    have hu : u.conn.responses.map Response.status = [status] := by
      change (List.filterMap _ (s.conn.sent ++ [.response _])).map Response.status = [status]
      rw [List.filterMap_append, show s.conn.sent.filterMap Message.response? = [] from hr]
      rfl
    have hv : v.conn.responses.map Response.status = [status] := by
      simp only [v]
      split
      · rw [(hangUp_conn u).1]
        exact hu
      · exact hu
    split
    · exact hv
    · exact hv
  · rename_i hdown
    exact absurd hc hdown

/-! ## Segments of a head -/

section

variable [Qt]

/-- A connection that reads takes a segment in first. -/
theorem onReadyRead_head (handlers : Handlers) (data : QByteArray)
    (hs : s.conn.state = .readingHeaders) (hb : s.conn.bodyComplete = false) :
    (host handlers).onReadyRead data s =
      let u := port.modify (HttpConnection.feed data) s
      match Lib.indexOf (crlf ++ crlf) (s.conn.buffer ++ data) with
      | none => if (s.conn.buffer ++ data).length > MaxHeadSize then port.fail 431 u else u
      | some fin =>
        let (ok, v) := port.parseHead ((s.conn.buffer ++ data).take fin)
          (port.modify (fun c => { c with buffer := c.buffer.drop (fin + 4) }) u)
        if ok then (host handlers).beginBody v else v := by
  have hopen : ¬ (s.conn.state = .responded ∨ s.conn.bodyComplete = true) := by
    rw [hs, hb]
    decide
  exact (if_neg hopen).trans (if_pos hs)

omit [Qt] in
/-- Another answer than 431. -/
theorem Passed.answer (hs : s.conn.state ≠ .responded) (hc : s.conn.connected = true)
    (hr : s.conn.responses = []) {status : Nat} (hstatus : status ≠ 431)
    (payload contentType : QByteArray) : (port.respond status payload contentType s).Passed := by
  refine .inr ⟨respond_state hs status payload contentType, ?_⟩
  rw [respond_status hs hc hr]
  exact fun heq => hstatus (List.singleton_inj.1 heq)

omit [Qt] in
theorem Passed.grows (h : s.emitted .headersReady ≠ 0) (hlog : s.log <+: t.log) : t.Passed := by
  have hmono := emitted_mono .headersReady hlog
  exact .inl (by omega)

theorem consumeBody_grows (handlers : Handlers) (hb : s.conn.InBody) :
    s.log <+: ((host handlers).consumeBody s).log := by
  rcases (host_rule handlers s).split_consumeBody ⟨.refl, hb.isOpen⟩ hb with
    ⟨-, hacts⟩ | ⟨t, hI, hb', -, hr, ht⟩
  · exact hacts.grows
  · rw [ht, hr]
    exact Acts.grows ((hI.1.tail (.complete hb')).trans (reacts_acts _ _))

/-- A head that was read gets the answer of a preflight, or is announced. -/
theorem beginBody_passed (handlers : Handlers) (hb : s.conn.bodyComplete = false)
    (hc : s.conn.connected = true) (hr : s.conn.responses = []) :
    ((host handlers).beginBody s).Passed := by
  unfold Host.beginBody
  extract_lets u v w
  split
  · exact .answer (s := u) nofun hc hr (by decide) [] []
  · have hlog : (u.emit .headersReady).log <+: v.log := (reacts_acts _ _).grows
    have hbc : v.conn.bodyComplete = false := (reacts_bodyComplete _ _).trans hb
    have hannounced : (u.emit .headersReady).emitted .headersReady ≠ 0 := by
      rw [emitted_emit, if_pos rfl]
      exact Nat.succ_ne_zero _
    split
    · exact .grows hannounced hlog
    · rename_i hst
      have hw : w.log = v.log ∧ w.conn.InBody := by
        simp only [w]
        split
        · exact ⟨rfl, not_not.1 hst, hbc⟩
        · exact ⟨rfl, not_not.1 hst, hbc⟩
      refine .grows hannounced (hlog.trans ?_)
      rw [← hw.1]
      exact consumeBody_grows handlers hw.2

/-- A head is read, or refused with 400. -/
theorem parseHead_cases (head : QByteArray) (s : Exchange) : ∃ c,
    (port.parseHead head s = (true, { s with conn := c }) ∨
      port.parseHead head s = (false, port.fail 400 { s with conn := c })) ∧
    c.state = s.conn.state ∧ c.bodyComplete = s.conn.bodyComplete ∧
      c.connected = s.conn.connected ∧ c.responses = s.conn.responses := by
  unfold Port.parseHead
  obtain ⟨_, _, _, _, _, _, _, heq⟩ := Host.readHead_eq head s.conn
  rcases hread : Port.readHead head s.conn with ⟨c, ok⟩
  rw [show port.get s = s.conn from rfl, hread]
  obtain rfl : c = _ := (congrArg Prod.fst hread).symm.trans heq
  cases ok with
  | true => exact ⟨_, .inl rfl, rfl, rfl, rfl, rfl⟩
  | false => exact ⟨_, .inr rfl, rfl, rfl, rfl, rfl⟩

/-- A blank line is in: the size of what came before it does not matter any more. -/
theorem readyRead_passed (hi : s.Inv) (handlers : Handlers) (data : QByteArray)
    (hs : s.conn.state = .readingHeaders) (hc : s.conn.connected = true) {fin : Nat}
    (hfin : Lib.indexOf (crlf ++ crlf) (s.conn.buffer ++ data) = some fin) :
    ((host handlers).onReadyRead data s).Passed := by
  have hne : s.conn.state ≠ .responded := fun hr => State.noConfusion (hs.symm.trans hr)
  obtain ⟨hb, -⟩ := hi.head hs
  have hr := hi.silent hne
  rw [onReadyRead_head handlers data hs hb]
  simp only [hfin]
  obtain ⟨c, hparse, hstate, hbody, hconn, hresp⟩ :=
    parseHead_cases ((s.conn.buffer ++ data).take fin)
      (port.modify (fun c => { c with buffer := c.buffer.drop (fin + 4) })
        (port.modify (HttpConnection.feed data) s))
  rcases hparse with hparse | hparse
  · rw [hparse]
    exact beginBody_passed handlers (hbody.trans hb) (hconn.trans hc) (hresp.trans hr)
  · rw [hparse]
    refine .answer (fun hst => hne (hstate.symm.trans hst)) (hconn.trans hc) (hresp.trans hr)
      (by decide) [] jsonType

/-! ## Reads -/

omit [Qt] in
theorem bytes_concat (reads : List (QByteArray × Handlers)) (read : QByteArray × Handlers) :
    bytes (reads ++ [read]) = bytes reads ++ read.1 := by
  simp [bytes]

omit [Qt] in
theorem bytes_mono {before reads : List (QByteArray × Handlers)} (h : before <+: reads) :
    bytes before <+: bytes reads := by
  obtain ⟨rest, rfl⟩ := h
  refine ⟨bytes rest, ?_⟩
  simp [bytes]

/-- What is answered is not read. -/
theorem handle_late (hs : s.conn.state = .responded) (data : QByteArray) (handlers : Handlers) :
    s.handle (.readyRead data handlers) =
      port.modify (fun c => { c with idleTimer := some (c.now + c.idleInterval) }) s :=
  Host.onReadyRead_late (host handlers) data (.inl hs)

omit [Qt] in
theorem Phase.stamp (h : Phase reads s) : Phase reads s.stamp := by
  unfold Exchange.stamp
  split
  · cases h with
    | waits hs hc hbuf hlen hnone => exact .waits hs hc hbuf hlen hnone
    | refused hr hs hlong => exact .refused hr hs hlong
    | passed hp hshort hfound => exact .passed hp hshort hfound
  · exact h

theorem Phase.read (hi : s.Inv) (h : Phase reads s) (read : QByteArray × Handlers) :
    Phase (reads ++ [read]) (s.next (.readyRead read.1 read.2)) := by
  refine Phase.stamp ?_
  cases h with
  | waits hs hc hbuf hlen hnone =>
    have hne : s.conn.state ≠ .responded := fun hr => State.noConfusion (hs.symm.trans hr)
    have hbuf' : s.conn.buffer ++ read.1 = bytes (reads ++ [read]) := by
      rw [bytes_concat, hbuf]
    obtain ⟨hb, hheads⟩ := hi.head hs
    change Phase _ ((host read.2).onReadyRead read.1 s)
    rcases hfin : Lib.indexOf (crlf ++ crlf) (bytes (reads ++ [read])) with - | fin
    · rw [onReadyRead_head read.2 read.1 hs hb, hbuf', hfin]
      simp only
      split
      · rename_i hlong
        have hfed : (port.modify (HttpConnection.feed read.1) s).conn.state ≠ .responded := hne
        refine .refused ⟨respond_status hfed hc (hi.silent hne) 431 [] jsonType, ?_, ?_⟩
          (respond_state hfed 431 [] jsonType) ⟨_, List.prefix_rfl, hlong, hfin⟩
        · exact (respond_emitted (x := .headersReady) hfed 431 [] jsonType (by decide)).trans hheads
        · exact (respond_emitted (x := .requestReady) hfed 431 [] jsonType (by decide)).trans
            (hi.part hb)
      · rename_i hshort
        exact .waits hs hc hbuf' (Nat.le_of_not_lt hshort) hfin
    · refine .passed (readyRead_passed hi read.2 read.1 hs hc (hbuf' ▸ hfin)) ?_ (by simp [hfin])
      intro before hbefore hlong
      rcases List.prefix_concat_iff.1 hbefore with rfl | hprefix
      · cases hlong.2.symm.trans hfin
      · have hle := (bytes_mono hprefix).length_le
        have hlt := hlong.1
        omega
  | refused hr hs hlong =>
    obtain ⟨before, hbefore, htoo⟩ := hlong
    rw [handle_late hs]
    exact .refused hr hs ⟨before, hbefore.trans (List.prefix_append _ _), htoo⟩
  | passed hp hshort hfound =>
    obtain ⟨fin, hfin⟩ := Option.ne_none_iff_exists'.1 hfound
    have hfin' : Lib.indexOf (crlf ++ crlf) (bytes (reads ++ [read])) = some fin := by
      rw [bytes_concat]
      exact Lib.indexOf_append _ hfin
    refine .passed ?_ ?_ (by simp [hfin'])
    · rcases hp with hheads | ⟨hs, hother⟩
      · have hgrows := (handle_acts s (.readyRead read.1 read.2)).grows
        rw [clock_eq] at hgrows
        exact .grows hheads hgrows
      · rw [handle_late hs]
        exact .inr ⟨hs, hother⟩
    · intro before hbefore hlong
      rcases List.prefix_concat_iff.1 hbefore with rfl | hprefix
      · cases hlong.2.symm.trans hfin'
      · exact hshort before hprefix hlong

theorem Phase.readAll (hs : Start s) (reads : List (QByteArray × Handlers)) :
    (Exchange.readAll reads s).Inv ∧ Phase reads (Exchange.readAll reads s) := by
  induction reads using List.reverseRecOn with
  | nil =>
    refine ⟨Start.inv hs, ?_⟩
    obtain ⟨now, address, certificate, rfl⟩ := hs
    exact .waits rfl rfl rfl (Nat.zero_le _) rfl
  | append_singleton reads read ih =>
    unfold Exchange.readAll at ih ⊢
    rw [List.foldl_append, List.foldl_cons, List.foldl_nil]
    exact ⟨ih.1.next _, ih.2.read ih.1 read⟩

omit [Qt] in
/-- Which of the phases refuses the head. -/
theorem Phase.refuses_iff (hi : s.Inv) (h : Phase reads s) :
    s.RefusesHead ↔ ∃ before, before <+: reads ∧ TooLong (bytes before) := by
  cases h with
  | waits hs hc hbuf hlen hnone =>
    refine ⟨fun hr => ?_, fun ⟨before, hbefore, hlong⟩ => ?_⟩
    · have hsilent := hi.silent fun hr' => State.noConfusion (hs.symm.trans hr')
      rw [RefusesHead, hsilent] at hr
      exact absurd hr.1 nofun
    · have hle := (bytes_mono hbefore).length_le
      have hlt := hlong.1
      omega
  | refused hr hs hlong => exact ⟨fun _ => hlong, fun _ => hr⟩
  | passed hp hshort hfound =>
    refine ⟨fun hr => ?_, fun ⟨before, hbefore, hlong⟩ => absurd hlong (hshort before hbefore)⟩
    rcases hp with hheads | ⟨-, hother⟩
    · exact absurd hr.2.1 hheads
    · exact absurd hr.1 hother

/-- A head is refused for its size if and only if some read leaves the buffer over the limit, and
without a blank line. -/
theorem head_limit_iff (hs : Start s) (reads : List (QByteArray × Handlers)) :
    (readAll reads s).RefusesHead ↔ ∃ before, before <+: reads ∧ TooLong (bytes before) := by
  obtain ⟨hi, hphase⟩ := Phase.readAll hs reads
  exact hphase.refuses_iff hi

end

section

local instance longQt : Qt := Ascii.qt [] []

/-- A request line over the limit. -/
def longTarget : QByteArray :=
  ascii "GET /" ++ List.replicate 40000 97 ++ ascii " HTTP/1.1"

theorem longTarget_length : longTarget.length = 40014 := by
  unfold longTarget
  rw [List.length_append, List.length_append, List.length_replicate]
  rfl

theorem longTarget_plain : 13 ∉ longTarget := by
  unfold longTarget
  simp only [List.mem_append, not_or]
  refine ⟨⟨by decide, fun h => ?_⟩, by decide⟩
  exact absurd (List.eq_of_mem_replicate h) (by decide)

/-- What is read of the request line has no blank line in it. -/
theorem longTarget_cut {n : Nat} (hn : n ≤ 40014) (rest : QByteArray) :
    ((longTarget ++ rest).take n).length = n ∧
      Lib.indexOf (crlf ++ crlf) ((longTarget ++ rest).take n) = none := by
  rw [List.take_append_of_le_length (by rw [longTarget_length]; exact hn)]
  refine ⟨by rw [List.length_take, longTarget_length]; omega, ?_⟩
  exact Lib.indexOf_eq_none_of_notMem fun h => longTarget_plain (List.mem_of_mem_take h)

def idle : Handlers := ⟨fun _ => [], fun _ => [], fun _ _ data => data.length⟩

def caller : Exchange := accepted 0 (str "192.168.1.7") none

theorem caller_start : Start caller := ⟨_, _, _, rfl⟩

/-- Cut after 33000 bytes, the head is refused. -/
theorem cut_refused :
    let stream := longTarget ++ (crlf ++ crlf)
    (readAll [(stream.take 33000, idle), (stream.drop 33000, idle)] caller).RefusesHead := by
  intro stream
  obtain ⟨hlen, hnone⟩ := longTarget_cut (n := 33000) (by decide) (crlf ++ crlf)
  have hbytes : bytes [(stream.take 33000, idle)] = stream.take 33000 := List.append_nil _
  refine (head_limit_iff caller_start _).2 ⟨[(stream.take 33000, idle)], ⟨_, rfl⟩, ?_⟩
  rw [hbytes]
  exact ⟨by rw [hlen]; decide, hnone⟩

/-- In one read it is not, although no blank line ends within the limit and four bytes. -/
theorem whole_not_refused :
    let stream := longTarget ++ (crlf ++ crlf)
    MaxHeadSize + 4 < stream.length ∧ stream.length ≤ SocketReadBuffer ∧
      Lib.indexOf (crlf ++ crlf) (stream.take (MaxHeadSize + 4)) = none ∧
      ¬ (readAll [(stream, idle)] caller).RefusesHead := by
  intro stream
  have hlen : stream.length = 40018 := by
    rw [List.length_append, longTarget_length]
    rfl
  refine ⟨by rw [hlen]; decide, by rw [hlen]; decide, (longTarget_cut (by decide) _).2, fun hr => ?_⟩
  obtain ⟨hi, hphase⟩ := Phase.readAll caller_start [(stream, idle)]
  obtain ⟨before, hbefore, hlong, hnone⟩ := (hphase.refuses_iff hi).1 hr
  rcases List.prefix_cons_iff.1 hbefore with rfl | ⟨rest, rfl, hrest⟩
  · exact absurd hlong (by decide)
  · rw [List.prefix_nil.1 hrest, show bytes [(stream, idle)] = stream from List.append_nil _] at hnone
    exact Lib.indexOf_ne_none ⟨longTarget, [], List.append_nil _⟩ hnone

end

end Exchange

end LocalSend
