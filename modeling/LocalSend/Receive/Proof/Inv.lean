import LocalSend.Receive.Proof.Act

/-!
# The invariant of the receiving side

`World.Inv`: what ties the connections, the uploads table, the session and the log together in every
state of every run. An upload on the table was admitted in the session that is open, and the file it
writes to is open (`Served`); a connection that streams is on the table. Most acts leave the session
as it is (`Calm`), so that only the uploads they touch have to be looked at.
-/

set_option autoImplicit false

namespace LocalSend

/-- What no act changes about a connection: its request once the head is in, and all of it once the
body is. -/
structure HttpConnection.Kept (c c' : HttpConnection) : Prop where
  address : c'.peerAddress = c.peerAddress
  certificate : c'.peerCertificate = c.peerCertificate
  answered : c.state = .responded → c'.state = .responded
  request : c.state ≠ .readingHeaders → c'.state ≠ .readingHeaders ∧
    c'.method = c.method ∧ c'.path = c.path ∧ c'.query = c.query ∧ c'.headers = c.headers
  complete : c.bodyComplete = true → c'.bodyComplete = true ∧ c'.body = c.body ∧
    c'.bodyReceived = c.bodyReceived ∧ c'.sink = c.sink ∧ c'.maxBodyBytes = c.maxBodyBytes

namespace HttpConnection

theorem Kept.refl (c : HttpConnection) : c.Kept c where
  address := rfl
  certificate := rfl
  answered h := h
  request h := ⟨h, rfl, rfl, rfl, rfl⟩
  complete h := ⟨h, rfl, rfl, rfl, rfl⟩

theorem Kept.trans {c c' c'' : HttpConnection} (h : c.Kept c') (h' : c'.Kept c'') :
    c.Kept c'' where
  address := h'.address.trans h.address
  certificate := h'.certificate.trans h.certificate
  answered hs := h'.answered (h.answered hs)
  request hs := by
    obtain ⟨h0, h1, h2, h3, h4⟩ := h.request hs
    obtain ⟨k0, k1, k2, k3, k4⟩ := h'.request h0
    exact ⟨k0, k1.trans h1, k2.trans h2, k3.trans h3, k4.trans h4⟩
  complete hc := by
    obtain ⟨h0, h1, h2, h3, h4⟩ := h.complete hc
    obtain ⟨k0, k1, k2, k3, k4⟩ := h'.complete h0
    exact ⟨k0, k1.trans h1, k2.trans h2, k3.trans h3, k4.trans h4⟩

theorem Step.kept {c c' : HttpConnection} (h : c.Step c') : c.Kept c' where
  address := h.address
  certificate := h.certificate
  answered := h.answered
  request hs := ⟨fun hr => hs (h.reading hr), h.request hs⟩
  complete hc :=
    ⟨h.bodyComplete.trans hc, (h.complete hc).1, (h.complete hc).2, h.sink, h.maxBodyBytes⟩

/-- Nothing of what `c` reads was touched. -/
structure Unread (c c' : HttpConnection) : Prop where
  answered : c.state = .responded → c'.state = .responded
  state : c'.state = c.state ∨ c'.state = .responded
  title : c'.title = c.title
  bodyComplete : c'.bodyComplete = c.bodyComplete
  headers : c'.headers = c.headers
  buffer : c'.buffer = c.buffer
  body : c'.body = c.body
  bodyReceived : c'.bodyReceived = c.bodyReceived
  contentLength : c'.contentLength = c.contentLength
  chunked : c'.chunked = c.chunked
  chunkState : c'.chunkState = c.chunkState
  chunkRemaining : c'.chunkRemaining = c.chunkRemaining

theorem Idle.unread {c c' : HttpConnection} (h : c.Idle c') : c.Unread c' :=
  { h with }

theorem Unread.refl (c : HttpConnection) : c.Unread c := (Idle.refl c).unread

theorem Unread.trans {c c' c'' : HttpConnection} (h : c.Unread c') (h' : c'.Unread c'') :
    c.Unread c'' where
  answered hs := h'.answered (h.answered hs)
  state := h'.state.elim (fun hs => h.state.imp hs.trans hs.trans) .inr
  title := h'.title.trans h.title
  bodyComplete := h'.bodyComplete.trans h.bodyComplete
  headers := h'.headers.trans h.headers
  buffer := h'.buffer.trans h.buffer
  body := h'.body.trans h.body
  bodyReceived := h'.bodyReceived.trans h.bodyReceived
  contentLength := h'.contentLength.trans h.contentLength
  chunked := h'.chunked.trans h.chunked
  chunkState := h'.chunkState.trans h.chunkState
  chunkRemaining := h'.chunkRemaining.trans h.chunkRemaining

theorem Unread.of_reply {c c' : HttpConnection} {sent : List Message}
    (h : Idle { c with sent := sent } c') : c.Unread c' :=
  { h with }

theorem Kept.queryValue {c c' : HttpConnection} (h : c.Kept c') (hs : c.state ≠ .readingHeaders)
    (key : QString) : c'.queryValue key = c.queryValue key := by
  unfold HttpConnection.queryValue
  rw [(h.request hs).2.2.2.1]

theorem Kept.fileId {c c' : HttpConnection} (h : c.Kept c') (hs : c.state ≠ .readingHeaders) :
    c'.fileId = c.fileId := h.queryValue hs _

/-- `c` takes a step, and may have answered or completed its body before. -/
def Follows (c c' : HttpConnection) : Prop :=
  ∃ sent complete, (complete = c.bodyComplete ∨ complete = true) ∧
    Step { c with sent := sent, bodyComplete := complete } c'

theorem Step.follows {c c' : HttpConnection} (h : c.Step c') : c.Follows c' :=
  ⟨c.sent, c.bodyComplete, .inl rfl, h⟩

theorem Follows.of_reply {c c' : HttpConnection} {sent : List Message}
    (h : Step { c with sent := sent } c') : c.Follows c' := ⟨sent, c.bodyComplete, .inl rfl, h⟩

theorem Follows.complete (c : HttpConnection) : c.Follows c.completed :=
  ⟨c.sent, true, .inr rfl, { Step.refl _ with }⟩

namespace Follows

variable {c c' : HttpConnection}

theorem kept (h : c.Follows c') : c.Kept c' := by
  obtain ⟨sent, complete, hb, hs⟩ := h
  refine { hs.kept with complete := fun hc => ?_ }
  have htrue : complete = true := hb.elim (·.trans hc) id
  exact hs.kept.complete htrue

theorem sink (h : c.Follows c') : c'.sink = c.sink := by
  obtain ⟨_, _, -, hs⟩ := h
  exact hs.sink

theorem maxBodyBytes (h : c.Follows c') : c'.maxBodyBytes = c.maxBodyBytes := by
  obtain ⟨_, _, -, hs⟩ := h
  exact hs.maxBodyBytes

theorem received (h : c.Follows c') (hsink : c.sink ≠ none) :
    c'.bodyReceived = c.bodyReceived := by
  obtain ⟨_, _, -, hs⟩ := h
  exact hs.received hsink

theorem reading (h : c.Follows c') (hr : c'.state = .readingHeaders) :
    c.state = .readingHeaders := by
  obtain ⟨_, _, -, hs⟩ := h
  exact hs.reading hr

/-- A connection that reads its body has not answered. -/
theorem state (h : c.Follows c') (hr : c.state ≠ .readingHeaders) (hs : c'.state = .readingBody) :
    c.state = .readingBody := by
  cases hstate : c.state with
  | readingHeaders => exact absurd hstate hr
  | readingBody => rfl
  | responded => exact absurd (hs.symm.trans (h.kept.answered hstate)) State.noConfusion

/-- A connection that streams after a step streamed before it. -/
theorem inBody (h : c.Follows c') (hr : c.state ≠ .readingHeaders) (hb : c'.InBody) :
    c.InBody := by
  refine ⟨h.state hr hb.1, ?_⟩
  obtain ⟨_, complete, hcomp, hs⟩ := h
  have hfalse : complete = false := hs.bodyComplete.symm.trans hb.2
  rcases hcomp with hc | hc
  · exact hc.symm.trans hfalse
  · exact absurd (hc.symm.trans hfalse) (by decide)

end Follows

end HttpConnection

namespace World

/-- The session of a world is that of another. -/
structure Calm (w v : World) : Prop where
  pending : v.pending = w.pending ∨ v.pending = none
  peer : v.peer = w.peer
  sessionId : v.sessionId = w.sessionId
  sessionAddress : v.sessionAddress = w.sessionAddress
  tokens : v.tokens = w.tokens
  declared : v.transfer.declared = w.transfer.declared
  shown : v.transfer.shown = w.transfer.shown
  born : w.nextConn ≤ v.nextConn
  kept : ∀ i < w.nextConn, (w.conns i).Kept (v.conns i)
  asked : Log.asked v.log = Log.asked w.log
  session : Log.session v.log = Log.session w.log
  since : ∀ e ∈ Log.sinceIssued w.log, e ∈ Log.sinceIssued v.log

theorem Calm.refl (w : World) : w.Calm w :=
  ⟨.inl rfl, rfl, rfl, rfl, rfl, rfl, rfl, le_rfl, fun _ _ => .refl _, rfl, rfl, fun _ h => h⟩

/-- An entry of the uploads table. -/
structure Served (w : World) (i : ConnId) (u : Upload) : Prop where
  file : u.file = i
  born : i < w.nextConn
  open_ : w.sessionId ≠ []
  head : (w.conns i).state ≠ .readingHeaders
  path : (w.conns i).path = endpoint Protocol.PathUpload
  session : (w.conns i).queryValue (str "sessionId") = w.sessionId
  token : w.tokens.lookup (w.conns i).fileId = some ((w.conns i).queryValue (str "token"))
  address : (w.conns i).peerAddress = w.sessionAddress
  found : w.transfer.indexOfFile (w.conns i).fileId = some u.row
  sink : (w.conns i).sink = some i
  limit : (w.conns i).maxBodyBytes = (w.transfer.entry u.row).size
  handle : ∃ h, w.handles i = some h ∧ h.path = u.partPath ∧
    (0 ≤ (w.conns i).maxBodyBytes → (h.written.length : Int) ≤ (w.conns i).maxBodyBytes) ∧
    ((w.conns i).state = .readingBody → h.written.length ≤ (w.conns i).bodyReceived)
  opened : ∃ c, Effect.opened i c u.row ∈ Log.sinceIssued w.log ∧ c.query = (w.conns i).query ∧
    c.peerAddress = (w.conns i).peerAddress

theorem Served.calm {w v : World} {i : ConnId} {u : Upload} (h : Served w i u) (hc : w.Calm v)
    (hsink : (v.conns i).sink = (w.conns i).sink)
    (hmax : (v.conns i).maxBodyBytes = (w.conns i).maxBodyBytes)
    (hh : ∃ h, v.handles i = some h ∧ h.path = u.partPath ∧
      (0 ≤ (w.conns i).maxBodyBytes → (h.written.length : Int) ≤ (w.conns i).maxBodyBytes) ∧
      ((v.conns i).state = .readingBody → h.written.length ≤ (v.conns i).bodyReceived)) :
    Served v i u where
  file := h.file
  born := Nat.lt_of_lt_of_le h.born hc.born
  open_ := by rw [hc.sessionId]; exact h.open_
  head := ((hc.kept i h.born).request h.head).1
  path := ((hc.kept i h.born).request h.head).2.2.1.trans h.path
  session := by rw [(hc.kept i h.born).queryValue h.head, hc.sessionId]; exact h.session
  token := by
    rw [(hc.kept i h.born).queryValue h.head, (hc.kept i h.born).fileId h.head, hc.tokens]
    exact h.token
  address := by rw [(hc.kept i h.born).address, hc.sessionAddress]; exact h.address
  found := by
    rw [(hc.kept i h.born).fileId h.head, TransferModel.indexOfFile_congr hc.declared]
    exact h.found
  sink := hsink.trans h.sink
  limit := by rw [hmax, TransferModel.size_congr hc.declared]; exact h.limit
  handle := by rw [hmax]; exact hh
  opened := by
    obtain ⟨c, hmem, hq, ha⟩ := h.opened
    exact ⟨c, hc.since _ hmem, hq.trans ((hc.kept i h.born).request h.head).2.2.2.1.symm,
      ha.trans (hc.kept i h.born).address.symm⟩

theorem Calm.of_step {w v : World} (h : w.Calm { v with conns := w.conns })
    (hconn : ∀ i, (w.conns i).Follows (v.conns i)) : w.Calm v where
  pending := h.pending
  peer := h.peer
  sessionId := h.sessionId
  sessionAddress := h.sessionAddress
  tokens := h.tokens
  declared := h.declared
  shown := h.shown
  born := h.born
  kept i _ := (hconn i).kept
  asked := h.asked
  session := h.session
  since := h.since

/-- One connection takes a step. -/
theorem follows_update {w : World} {i : ConnId} {c : HttpConnection} (h : (w.conns i).Follows c)
    (j : ConnId) : (w.conns j).Follows ((w.setConn i c).conns j) := by
  unfold setConn
  by_cases hj : j = i
  · subst hj
    simpa using h
  · simpa [hj] using (HttpConnection.Step.refl (w.conns j)).follows

/-- An entry that says nothing about sessions or requests is added to the log. -/
theorem Calm.log {w v : World} (h : w.Calm v) {e : Effect} (ha : e.asked? = none)
    (hs : e.session? = none) : w.Calm { v with log := v.log ++ [e] } :=
  { h with
    asked := by rw [Log.asked_concat, ha]; exact h.asked
    session := by rw [Log.session_concat, hs]; exact h.session
    since := by
      intro x hx
      rw [Log.sinceIssued_concat, hs]
      simpa using .inl (h.since x hx) }

theorem Calm.emit (w : World) {e : Effect} (ha : e.asked? = none) (hs : e.session? = none) :
    w.Calm (w.emit e) := Calm.log (Calm.refl w) ha hs

theorem Calm.mark (w : World) (row : Nat) (status : FileStatus) (error : QString) :
    w.Calm (w.setFileStatus row status error) :=
  Calm.log (v := { w with transfer := w.transfer.setFileStatus row status error })
    { Calm.refl w with
      declared := TransferModel.declared_setFileStatus _ _ _ _
      shown := TransferModel.shown_setFileStatus _ _ _ _ } rfl rfl

theorem Calm.transfer {w : World} {t : TransferModel} (h : w.transfer.Alike t) :
    w.Calm { w with transfer := t } :=
  { Calm.refl w with declared := h.declared, shown := h.shown }

section
variable [Qt]

/-- The request that is pending or open is the one the transfer was last begun for. -/
structure Recalls (w : World) (a : Asked) : Prop where
  asked : Log.asked w.log = some a
  peer : a.peer = w.peer
  verified : fingerprintVerified a.request a.peer.fingerprint = true
  declared : w.transfer.declared = a.files.map FileEntry.declared
  shown : w.transfer.shown =
    (a.peer.aliasName, a.peer.fingerprint, TransferModel.totalSize a.files)
  pending : ∀ i, w.pending = some i →
    i = a.conn ∧ (w.conns i).peerAddress = a.request.peerAddress
  session : w.sessionId ≠ [] → w.sessionAddress = a.request.peerAddress

theorem Recalls.fileCount {w : World} {a : Asked} (h : w.Recalls a) :
    w.transfer.fileCount = a.files.length := by
  have := congrArg List.length h.declared
  simpa [TransferModel.declared, TransferModel.fileCount] using this

theorem Recalls.entry {w : World} {a : Asked} (h : w.Recalls a) (row : Nat) :
    (w.transfer.entry row).declared = (a.files.getD row default).declared := by
  have := congrArg (fun l => l.getD row (default : FileEntry).declared) h.declared
  rw [TransferModel.declared, List.getD_map, List.getD_map] at this
  exact this

/-- The invariant of the session. -/
structure SessionInv (w : World) : Prop where
  exclusive : w.pending = none ∨ w.sessionId = []
  parked : ∀ i, w.pending = some i → i < w.nextConn ∧ (w.conns i).state ≠ .readingHeaders ∧
    (w.conns i).bodyComplete = true ∧ (w.conns i).path = endpoint Protocol.PathPrepareUpload
  recalls : w.Busy → ∃ a, w.Recalls a
  session : Log.session w.log = if w.sessionId = [] then none
    else some ⟨w.sessionId, w.sessionAddress, w.tokens⟩
  tokens : HexTokens w.tokens

/-- The invariant. -/
structure Inv (w : World) : Prop extends SessionInv w where
  served : ∀ i u, w.uploads.lookup i = some u → Served w i u
  streaming : ∀ i f, (w.conns i).sink = some f → (w.conns i).InBody →
    f = i ∧ ∃ u, w.uploads.lookup i = some u
  fresh : ∀ i, (w.conns i).state = .readingHeaders →
    (w.conns i).sink = none ∧ w.uploads.lookup i = none

theorem SessionInv.calm {w v : World} (h : w.SessionInv) (hc : w.Calm v) : v.SessionInv where
  exclusive := by
    rcases hc.pending with hp | hp
    · rw [hp, hc.sessionId]
      exact h.exclusive
    · exact .inl hp
  parked i hi := by
    rcases hc.pending with hp | hp
    · obtain ⟨h1, h2, h3, h4⟩ := h.parked i (hp.symm.trans hi)
      exact ⟨Nat.lt_of_lt_of_le h1 hc.born, ((hc.kept i h1).request h2).1,
        ((hc.kept i h1).complete h3).1, ((hc.kept i h1).request h2).2.2.1.trans h4⟩
    · cases hp.symm.trans hi
  recalls hb := by
    have hpend : ∀ i, v.pending = some i → w.pending = some i := by
      intro i hi
      rcases hc.pending with hp | hp
      · exact hp.symm.trans hi
      · cases hp.symm.trans hi
    have hbusy : w.Busy := by
      rcases hb with hb | hb
      · obtain ⟨i, hi⟩ := Option.ne_none_iff_exists'.1 hb
        exact .inl (by rw [hpend i hi]; exact Option.some_ne_none i)
      · exact .inr (by rwa [hc.sessionId] at hb)
    obtain ⟨a, ha⟩ := h.recalls hbusy
    refine ⟨a, hc.asked.trans ha.asked, ha.peer.trans hc.peer.symm, ha.verified,
      hc.declared.trans ha.declared, hc.shown.trans ha.shown, fun i hi => ?_, fun hs => ?_⟩
    · obtain ⟨h1, -, -⟩ := h.parked i (hpend i hi)
      obtain ⟨rfl, h3⟩ := ha.pending i (hpend i hi)
      exact ⟨rfl, (hc.kept _ h1).address.trans h3⟩
    · exact hc.sessionAddress.trans (ha.session (by rwa [hc.sessionId] at hs))
  session := by rw [hc.session, hc.sessionId, hc.sessionAddress, hc.tokens]; exact h.session
  tokens := by rw [hc.tokens]; exact h.tokens

/-- The connections only take steps (and answer), and only what no longer streams leaves the table. -/
theorem Inv.steps {w v : World} (h : w.Inv) (hc : w.Calm v)
    (hconn : ∀ i, (w.conns i).Follows (v.conns i))
    (hkept : ∀ i u, v.uploads.lookup i = some u →
      w.uploads.lookup i = some u ∧ v.handles i = w.handles i)
    (hlost : ∀ i, (v.conns i).InBody → v.uploads.lookup i = w.uploads.lookup i) : v.Inv :=
  { h.toSessionInv.calm hc with
    served := by
      intro i u hu
      obtain ⟨hu', hh⟩ := hkept i u hu
      have hs := h.served i u hu'
      refine hs.calm hc (hconn i).sink (hconn i).maxBodyBytes ?_
      obtain ⟨f, h1, h2, h3, h4⟩ := hs.handle
      refine ⟨f, hh.trans h1, h2, h3, fun hst => ?_⟩
      rw [(hconn i).received (by rw [hs.sink]; exact Option.some_ne_none i)]
      exact h4 ((hconn i).state hs.head hst)
    streaming := by
      intro i f hsink hb
      have hsink' : (w.conns i).sink = some f := (hconn i).sink.symm.trans hsink
      have hhead : (w.conns i).state ≠ .readingHeaders := by
        intro hst
        cases hsink'.symm.trans (h.fresh i hst).1
      obtain ⟨rfl, u, hu⟩ := h.streaming i f hsink' ((hconn i).inBody hhead hb)
      exact ⟨rfl, u, (hlost f hb).trans hu⟩
    fresh := by
      intro i hst
      obtain ⟨h1, h2⟩ := h.fresh i ((hconn i).reading hst)
      refine ⟨(hconn i).sink.trans h1, ?_⟩
      rcases hv : v.uploads.lookup i with - | u
      · rfl
      · cases h2.symm.trans (hkept i u hv).1 }

/-- `Inv.steps` with the uploads as they were. -/
theorem Inv.calm {w v : World} (h : w.Inv) (hc : w.Calm v)
    (hconn : ∀ i, (w.conns i).Follows (v.conns i))
    (hup : v.uploads = w.uploads) (hh : v.handles = w.handles) : v.Inv :=
  h.steps hc hconn (fun i u hu => ⟨by rwa [hup] at hu, by rw [hh]⟩) fun _ _ => by rw [hup]

/-! ## Act by act -/

variable {w : World} {i : ConnId}

theorem Inv.connect (h : w.Inv) (address : QString) (certificate : Option QByteArray) :
    (w.connect address certificate).Inv := by
  have hne : ∀ {j}, j < w.nextConn → (w.connect address certificate).conns j = w.conns j :=
    fun hj => Function.update_of_ne (Nat.ne_of_lt hj) _ _
  have hnew : ((w.connect address certificate).conns w.nextConn).sink = none := by
    obtain ⟨peer, hp⟩ : ∃ peer, (w.connect address certificate).conns w.nextConn =
      .accepted w.now address peer := ⟨_, Function.update_self _ _ _⟩
    rw [hp]
    rfl
  have hc : w.Calm (w.connect address certificate) :=
    { Calm.refl w with
      born := Nat.le_succ _
      kept := fun j hj => by rw [hne hj]; exact .refl _ }
  refine { h.toSessionInv.calm hc with served := ?_, streaming := ?_, fresh := ?_ }
  · intro j u hu
    have hs := h.served j u hu
    exact hs.calm hc (by rw [hne hs.born]) (by rw [hne hs.born])
      (by rw [hne hs.born]; exact hs.handle)
  · intro j f hsink hb
    by_cases hj : j = w.nextConn
    · subst hj
      cases hnew.symm.trans hsink
    · have hconn : (w.connect address certificate).conns j = w.conns j :=
        Function.update_of_ne hj _ _
      rw [hconn] at hsink hb
      exact h.streaming j f hsink hb
  · intro j hst
    by_cases hj : j = w.nextConn
    · subst hj
      refine ⟨hnew, ?_⟩
      rcases hu : (w.connect address certificate).uploads.lookup w.nextConn with - | u
      · rfl
      · exact absurd (h.served _ _ hu).born (Nat.lt_irrefl _)
    · have hconn : (w.connect address certificate).conns j = w.conns j :=
        Function.update_of_ne hj _ _
      rw [hconn] at hst ⊢
      exact h.fresh j hst

/-- Bytes go to the file of the connection that streams them. -/
theorem Inv.write {f : FileId} {data : QByteArray} {c : HttpConnection} (h : w.Inv)
    (hb : (w.conns i).InBody) (hsink : (w.conns i).sink = some f) (hroom : w.Room i data.length)
    (hk : (w.conns i).Kept c) (hsink' : c.sink = (w.conns i).sink)
    (hmax : c.maxBodyBytes = (w.conns i).maxBodyBytes)
    (hrec : c.state = .readingBody → (w.conns i).bodyReceived + data.length ≤ c.bodyReceived) :
    ((w.write i f data).2.setConn i c).Inv := by
  obtain ⟨rfl, u, hu⟩ := h.streaming i f hsink hb
  have hs := h.served f u hu
  obtain ⟨file, hf, hp, hle, hrec'⟩ := hs.handle
  rw [write_eq hf]
  have hkept : ∀ j, (w.conns j).Kept (Function.update w.conns f c j) := by
    intro j
    by_cases hj : j = f
    · subst hj
      simpa using hk
    · simpa [hj] using HttpConnection.Kept.refl _
  have hhead : c.state ≠ .readingHeaders := (hk.request hs.head).1
  refine { h.toSessionInv.calm (.log (v := { w with
      conns := Function.update w.conns f c
      handles := _ }) { Calm.refl w with kept := fun j _ => hkept j } rfl rfl) with
    served := ?_, streaming := ?_, fresh := ?_ }
  · intro j u' hu'
    have hs' := h.served j u' hu'
    refine hs'.calm (.log (v := { w with
      conns := Function.update w.conns f c
      handles := _ }) { Calm.refl w with kept := fun j _ => hkept j } rfl rfl) ?_ ?_ ?_
    all_goals by_cases hj : j = f
    · subst hj
      simpa [setConn] using hsink'
    · simp [setConn, hj]
    · subst hj
      simpa [setConn] using hmax
    · simp [setConn, hj]
    · subst hj
      obtain rfl := Option.some.inj (hu.symm.trans hu')
      refine ⟨_, Function.update_self _ _ _, hp, fun h0 => ?_, fun hst => ?_⟩
      · have := hroom h0
        have := hrec' hb.1
        simp only [List.length_append, List.length_take]
        omega
      · simp only [setConn, Function.update_self] at hst ⊢
        have := hrec hst
        have := hrec' hb.1
        simp only [List.length_append, List.length_take]
        omega
    · simpa [setConn, hj] using hs'.handle
  · intro j f' hsink₂ hb₂
    by_cases hj : j = f
    · subst hj
      simp only [setConn, Function.update_self] at hsink₂
      obtain rfl := Option.some.inj ((hsink'.trans hsink).symm.trans hsink₂)
      exact ⟨rfl, u, hu⟩
    · simp only [setConn, ne_eq, hj, not_false_eq_true, Function.update_of_ne] at hsink₂ hb₂
      exact h.streaming j f' hsink₂ hb₂
  · intro j hst
    by_cases hj : j = f
    · subst hj
      simp only [setConn, Function.update_self] at hst
      exact absurd hst hhead
    · simp only [setConn, ne_eq, hj, not_false_eq_true, Function.update_of_ne] at hst ⊢
      exact h.fresh j hst

theorem Inv.enter {row : Nat} (path : QString) (h : w.Inv) (ha : w.Admits i row) :
    ((w.beginUpload i row path).setConn i { w.conns i with
      sink := some i
      maxBodyBytes := (w.transfer.entry row).size }).Inv := by
  set c : HttpConnection := { w.conns i with
    sink := some i
    maxBodyBytes := (w.transfer.entry row).size } with hcdef
  have hk : (w.conns i).Kept c :=
    { HttpConnection.Kept.refl (w.conns i) with
      complete := fun hf => absurd (ha.inBody.2.symm.trans hf) (by decide) }
  have hkept : ∀ j, (w.conns j).Kept (Function.update w.conns i c j) := by
    intro j
    by_cases hj : j = i
    · subst hj
      simpa using hk
    · simpa [hj] using HttpConnection.Kept.refl _
  have hcalm : w.Calm ((w.beginUpload i row path).setConn i c) := by
    have hm := Calm.mark w row .transferring []
    have ho : w.Calm { w with
        conns := Function.update w.conns i c
        log := w.log ++ [Effect.opened i (w.conns i) row] } :=
      Calm.log (v := { w with conns := Function.update w.conns i c })
        { Calm.refl w with kept := fun j _ => hkept j } rfl rfl
    have hl := Calm.log (e := .fileStatus row .transferring) ho rfl rfl
    exact { hl with declared := hm.declared, shown := hm.shown }
  have hhead : (w.conns i).state ≠ .readingHeaders := by
    rw [ha.inBody.1]
    exact State.noConfusion
  have hother : ∀ {j}, j ≠ i →
      ((w.beginUpload i row path).setConn i c).uploads.lookup j = w.uploads.lookup j :=
    fun hj => AList.lookup_insert_ne hj
  have hnew : ((w.beginUpload i row path).setConn i c).uploads.lookup i =
      some ⟨row, i, path ++ PartSuffix, path⟩ := AList.lookup_insert _
  have hconn : ((w.beginUpload i row path).setConn i c).conns i = c := Function.update_self _ _ _
  have hconns : ∀ {j}, j ≠ i → ((w.beginUpload i row path).setConn i c).conns j = w.conns j :=
    fun hj => Function.update_of_ne hj _ _
  refine { h.toSessionInv.calm hcalm with served := ?_, streaming := ?_, fresh := ?_ }
  · intro j u hu
    by_cases hj : j = i
    · subst hj
      obtain rfl := Option.some.inj (hnew.symm.trans hu)
      have htoken : w.tokens.lookup (w.conns j).fileId =
          some ((w.conns j).queryValue (str "token")) := by
        obtain ⟨hne, heq⟩ := ha.token
        rcases ht : w.tokens.lookup (w.conns j).fileId with - | t
        · rw [ht, Option.getD_none, Crypto.equals_token (by simp)] at heq
          exact absurd heq.symm hne
        · rw [ht, Option.getD_some, Crypto.equals_token (h.tokens _ _ ht)] at heq
          rw [heq]
      exact {
        file := rfl
        born := ha.born
        open_ := ha.open_
        head := by rw [hconn]; exact hhead
        path := by rw [hconn]; exact ha.path
        session := by rw [hconn]; exact ha.session
        token := by rw [hconn]; exact htoken
        address := by rw [hconn]; exact ha.address
        found := by
          rw [hconn, TransferModel.indexOfFile_congr hcalm.declared]
          exact ha.found
        sink := by rw [hconn]
        limit := by rw [hconn, TransferModel.size_congr hcalm.declared]
        handle := ⟨⟨path ++ PartSuffix, []⟩, Function.update_self _ _ _, rfl, fun h0 => h0,
          fun _ => Nat.zero_le _⟩
        opened := by
          refine ⟨w.conns j, ?_, by rw [hconn], by rw [hconn]⟩
          change _ ∈ Log.sinceIssued (w.log ++ [Effect.opened j (w.conns j) row] ++ [_])
          rw [Log.sinceIssued_concat, Log.sinceIssued_concat]
          simp }
    · have hs := h.served j u ((hother hj).symm.trans hu)
      refine hs.calm hcalm (by rw [hconns hj]) (by rw [hconns hj]) ?_
      obtain ⟨f, h1, h2⟩ := hs.handle
      rw [hconns hj]
      exact ⟨f, (Function.update_of_ne hj _ _).trans h1, h2⟩
  · intro j f hsink hb
    by_cases hj : j = i
    · subst hj
      rw [hconn] at hsink
      obtain rfl := Option.some.inj hsink
      exact ⟨rfl, _, hnew⟩
    · rw [hconns hj] at hsink hb
      obtain ⟨rfl, u, hu⟩ := h.streaming j f hsink hb
      exact ⟨rfl, u, (hother hj).trans hu⟩
  · intro j hst
    by_cases hj : j = i
    · subst hj
      rw [hconn] at hst
      exact absurd hst hhead
    · rw [hconns hj] at hst ⊢
      rw [hother hj]
      exact h.fresh j hst

/-- Without a session nothing is on the table. -/
theorem Inv.no_uploads (h : w.Inv) (hs : w.sessionId = []) (j : ConnId) :
    w.uploads.lookup j = none := by
  rcases hu : w.uploads.lookup j with - | u
  · rfl
  · exact absurd hs (h.served j u hu).open_

/-- A change of session with nothing on the table. -/
theorem Inv.of_session {v : World} (h : w.Inv) (hs : v.SessionInv) (hconns : v.conns = w.conns)
    (hup : ∀ j, v.uploads.lookup j = none) (hup' : ∀ j, w.uploads.lookup j = none) : v.Inv :=
  { hs with
    served := fun j u hu => by cases (hup j).symm.trans hu
    streaming := fun j f hsink hb => by
      rw [hconns] at hsink hb
      obtain ⟨-, u, hu⟩ := h.streaming j f hsink hb
      cases (hup' j).symm.trans hu
    fresh := fun j hst => by
      rw [hconns] at hst ⊢
      exact ⟨(h.fresh j hst).1, hup j⟩ }

theorem Inv.park (h : w.Inv) (hb : ¬ w.Busy) (hi : i < w.nextConn)
    (hst : (w.conns i).state = .readingBody) (hc : (w.conns i).bodyComplete = true)
    (hpath : (w.conns i).path = endpoint Protocol.PathPrepareUpload)
    (hv : fingerprintVerified (w.conns i) (requestPeer (w.conns i)).fingerprint = true) :
    (w.park i).Inv := by
  obtain ⟨hp, hs⟩ := not_or.1 hb
  have hs : w.sessionId = [] := not_not.1 hs
  have halike := TransferModel.alike_setState (w.transfer.begin .receiving
    (requestPeer (w.conns i)).aliasName (requestPeer (w.conns i)).address
    (requestPeer (w.conns i)).deviceType (requestPeer (w.conns i)).fingerprint
    (parseEntries (requestFiles (w.conns i)))) .pending []
  refine h.of_session (v := w.park i) ?_ rfl (h.no_uploads hs) (h.no_uploads hs)
  exact {
    exclusive := .inr hs
    parked := by
      rintro j ⟨⟩
      exact ⟨hi, by simp [World.park, World.setState, hst], hc, hpath⟩
    recalls := fun _ => ⟨⟨i, w.conns i, requestPeer (w.conns i),
      parseEntries (requestFiles (w.conns i))⟩, {
        asked := Log.asked_concat _ _
        peer := rfl
        verified := hv
        declared := halike.declared
        shown := halike.shown
        pending := by
          rintro j ⟨⟩
          exact ⟨rfl, rfl⟩
        session := fun hne => absurd hs hne }⟩
    session := (Log.session_concat _ _).trans h.session
    tokens := h.tokens }

theorem Inv.openSession {directory : QString} (h : w.Inv) (hp : w.pending = some i) :
    ((w.openSession i directory).emit .started).releasePending.Inv := by
  have hs : w.sessionId = [] := by
    rcases h.exclusive with he | he
    · cases he.symm.trans hp
    · exact he
  obtain ⟨a, ha⟩ := h.recalls (.inl (by rw [hp]; exact Option.some_ne_none i))
  obtain ⟨id, d, t, tokens, heq, -, -, halike, hhex⟩ := openSession_eq w i directory
  rw [heq]
  refine h.of_session ?_ rfl (h.no_uploads hs) (h.no_uploads hs)
  exact {
    exclusive := .inl rfl
    parked := by
      rintro j ⟨⟩
    recalls := fun _ => ⟨a, {
      asked := (Log.asked_concat _ _).trans ((Log.asked_concat _ _).trans ha.asked)
      peer := ha.peer
      verified := ha.verified
      declared := halike.declared.trans ha.declared
      shown := halike.shown.trans ha.shown
      pending := by
        rintro j ⟨⟩
      session := fun _ => (ha.pending i hp).2 }⟩
    session := by
      rw [releasePending, emit, Log.session_concat, Log.session_concat]
      by_cases hid : id = [] <;> simp [hid]
    tokens := hhex }

theorem Inv.finish (h : w.Inv) (destination : QString) (hs : w.sessionId ≠ [])
    (hu : w.uploads = ∅) : (w.closeSession.emit
      (.transferFinished w.transfer.stateName w.transfer.completedCount destination)).Inv := by
  have hp : w.pending = none := h.exclusive.resolve_right hs
  have hup : ∀ j, w.uploads.lookup j = none := by
    intro j
    rw [hu]
    exact AList.lookup_empty j
  refine h.of_session ?_ rfl hup hup
  exact {
    exclusive := .inr rfl
    parked := by
      intro j hj
      cases hp.symm.trans hj
    recalls := by
      rintro (hb | hb)
      · exact absurd hp hb
      · exact absurd rfl hb
    session := (Log.session_concat _ _).trans (Log.session_concat _ _)
    tokens := .empty }

/-- An upload leaves the table, and its connection has stopped streaming. -/
theorem Inv.leave {v : World} {u : Upload} (h : w.Inv) (hu : w.uploads.lookup i = some u)
    (hc : w.Calm v) (hconn : ∀ j, (w.conns j).Follows (v.conns j))
    (hup : v.uploads = w.uploads.erase i)
    (hh : v.handles = Function.update w.handles u.file none) (hi : ¬ (v.conns i).InBody) :
    v.Inv := by
  refine h.steps hc hconn (fun j u' hu' => ?_) fun j hb => ?_
  · have hj : j ≠ i := by
      rintro rfl
      rw [hup, AList.lookup_erase] at hu'
      cases hu'
    rw [hup, AList.lookup_erase_ne hj] at hu'
    refine ⟨hu', ?_⟩
    rw [hh, (h.served i u hu).file, Function.update_of_ne hj]
  · have hj : j ≠ i := fun he => hi (he ▸ hb)
    rw [hup, AList.lookup_erase_ne hj]

theorem Inv.drop {u : Upload} {error : QString} {c : HttpConnection} (h : w.Inv)
    (hu : w.uploads.lookup i = some u) (hc : (w.conns i).Step c) (hst : c.state = .responded) :
    ((w.dropUpload i u error).setConn i c).Inv := by
  obtain ⟨d, hd⟩ := dropUpload_eq i u error w
  rw [hd]
  have hconn := follows_update (w := w) hc.follows
  refine h.leave hu (.of_step { Calm.mark w u.row .failed error with } hconn) hconn rfl rfl ?_
  intro hb
  have : (Function.update w.conns i c i).state = .readingBody := hb.1
  rw [Function.update_self, hst] at this
  cases this

theorem Inv.settle {u : Upload} (h : w.Inv) (hu : w.uploads.lookup i = some u)
    (hc : (w.conns i).bodyComplete = true) :
    (settleUpload i u { w with uploads := w.uploads.erase i }).2.Inv := by
  have hs := h.served i u hu
  obtain ⟨f, hf, hp, -⟩ := hs.handle
  have stay : ∀ j, (w.conns j).Follows (w.conns j) := fun j => (HttpConnection.Step.refl _).follows
  have hi : ¬ (w.conns i).InBody := fun hb => absurd (hb.2.symm.trans hc) (by decide)
  obtain ⟨d, ⟨status, error, -, heq⟩ | ⟨path, content, -, -, -, -, heq⟩⟩ :=
    settleUpload_spec (w := { w with uploads := w.uploads.erase i }) i (hs.file.symm ▸ hf) hp
  · rw [heq]
    exact h.leave hu { Calm.mark w u.row .failed error with } stay rfl rfl hi
  · rw [heq]
    have halike := TransferModel.alike_setFileLocalPath w.transfer u.row path
    have hl := Calm.log (e := .fileStatus u.row .done)
      (Calm.emit w (e := .stored i u.row path content) rfl rfl) rfl rfl
    exact h.leave hu { hl with
      declared := (TransferModel.declared_setFileStatus _ _ _ _).trans halike.declared
      shown := (TransferModel.shown_setFileStatus _ _ _ _).trans halike.shown }
      stay rfl rfl hi

omit [Qt] in
/-- The part file is there, and the connection is told where its body goes. -/
theorem entered_eq (w : World) (i : ConnId) (row : Nat) (path : QString) (c : HttpConnection) :
    ∃ d, ((w.openFile (path ++ PartSuffix)).2.beginUpload i row path).setConn i c =
      (World.beginUpload i row path { w with disk := d }).setConn i c := by
  obtain ⟨ok, d, heq⟩ := openFile_eq (path ++ PartSuffix) w
  exact ⟨d, by rw [heq]⟩

theorem Inv.setConn {c : HttpConnection} (h : w.Inv) (hc : (w.conns i).Follows c) :
    (w.setConn i c).Inv :=
  h.calm (.of_step { Calm.refl w with } (follows_update hc)) (follows_update hc) rfl rfl

theorem Inv.disk (h : w.Inv) (d : Disk) : ({ w with disk := d } : World).Inv :=
  h.calm { Calm.refl w with } (fun _ => (HttpConnection.Step.refl _).follows) rfl rfl

theorem Act.inv {g : Guard} {v : World} (ha : Act g w v) (h : w.Inv) : v.Inv := by
  have stay : ∀ j, (w.conns j).Follows (w.conns j) := fun j => (HttpConnection.Step.refl _).follows
  cases ha with
  | outside => exact h.calm { Calm.refl w with } stay rfl rfl
  | aside => exact h.calm { Calm.refl w with } stay rfl rfl
  | files => exact h.disk _
  | probe => exact h.disk _
  | conns hf =>
    have hf' := fun j => (hf j).toStep.follows
    exact h.calm (.of_step { Calm.refl w with } hf') hf' rfl rfl
  | read _ hc => exact h.setConn hc.follows
  | complete => exact h.setConn (.complete _)
  | reply _ _ hc => exact h.setConn (.of_reply hc.toStep)
  | connect _ address certificate => exact h.connect address certificate
  | transfer ht => exact h.calm (.transfer ht) stay rfl rfl
  | wrote _ hb hs hroom _ =>
    exact h.write hb hs hroom { HttpConnection.Kept.refl _ with
      complete := fun hf => absurd (hb.2.symm.trans hf) (by decide) } rfl rfl fun _ => le_rfl
  | short _ hb hs hroom hc hst =>
    exact h.write hb hs hroom hc.toStep.kept hc.sink hc.maxBodyBytes fun hst' =>
      absurd (hst.symm.trans hst') State.noConfusion
  | park hb hi hst hc hp hv _ => exact h.park hb hi hst hc hp hv
  | prompt =>
    exact h.calm { Calm.emit w (e := .prompted w.peer.aliasName w.transfer.fileCount
      w.transfer.totalBytes) rfl rfl with } stay rfl rfl
  | openSession hp => exact h.openSession hp
  | release => exact h.calm { Calm.refl w with pending := .inr rfl } stay rfl rfl
  | @enter i row path _ hadm =>
    obtain ⟨d, hd⟩ := entered_eq w i row path { w.conns i with
      sink := some i
      maxBodyBytes := (w.transfer.entry row).size }
    rw [hd]
    exact (h.disk d).enter path { hadm with }
  | mark => exact h.calm (Calm.mark ..) stay rfl rfl
  | drop _ hu hc hst => exact h.drop hu hc.toStep hst
  | settle hu _ hc _ => exact h.settle hu hc
  | remember =>
    unfold rememberPeer
    split
    · exact h.calm { Calm.emit w (e := .remembered w.peer.fingerprint w.peer.aliasName) rfl rfl
        with } stay rfl rfl
    · exact h
  | record =>
    unfold writeHistory
    split
    · exact h.calm { Calm.emit w (e := .recorded w.sessionRecord) rfl rfl with } stay rfl rfl
    · exact h
  | finish destination hs hu => exact h.finish destination hs hu
  | posted => exact h.calm (Calm.emit w rfl rfl) stay rfl rfl

theorem Acts.inv {g : Guard} {v : World} (h : Acts g w v) (hw : w.Inv) : v.Inv :=
  h.keep (P := Inv) (fun ha hi => ha.inv hi) hw

theorem Start.inv (h : w.Start) : w.Inv where
  exclusive := .inl h.pending
  parked i hi := by cases h.pending.symm.trans hi
  recalls hb := absurd hb (not_or.2 ⟨not_not.2 h.pending, not_not.2 h.sessionId⟩)
  session := by rw [h.log, h.sessionId, if_pos rfl]; rfl
  tokens := by rw [h.tokens]; exact .empty
  served i u hu := by
    rw [h.uploads, AList.lookup_empty] at hu
    cases hu
  streaming i f hs _ := by cases (h.conns i).1.symm.trans hs
  fresh i hst := by cases (h.conns i).2.symm.trans hst

/-- Only a prepare-upload changes what the rows were asked for with, and by whom. -/
theorem Act.declared {g : Guard} {v : World} (ha : Act g w v) (h : w.Inv) :
    (v.transfer.declared = w.transfer.declared ∧ v.transfer.shown = w.transfer.shown) ∨
      ∃ i, v = w.park i ∧ g.park (w.conns i) := by
  have marked : ∀ (t : TransferModel) row status error,
      (t.setFileStatus row status error).declared = t.declared ∧
        (t.setFileStatus row status error).shown = t.shown :=
    fun t row status error => ⟨t.declared_setFileStatus .., t.shown_setFileStatus ..⟩
  cases ha with
  | outside => exact .inl ⟨rfl, rfl⟩
  | aside => exact .inl ⟨rfl, rfl⟩
  | files => exact .inl ⟨rfl, rfl⟩
  | probe => exact .inl ⟨rfl, rfl⟩
  | conns => exact .inl ⟨rfl, rfl⟩
  | read => exact .inl ⟨rfl, rfl⟩
  | complete => exact .inl ⟨rfl, rfl⟩
  | reply => exact .inl ⟨rfl, rfl⟩
  | connect => exact .inl ⟨rfl, rfl⟩
  | transfer ht => exact .inl ⟨ht.declared, ht.shown⟩
  | wrote =>
    left
    unfold World.write
    split <;> exact ⟨rfl, rfl⟩
  | short =>
    left
    unfold World.write
    split <;> exact ⟨rfl, rfl⟩
  | @park i _ _ _ _ _ _ hg => exact .inr ⟨i, rfl, hg⟩
  | prompt => exact .inl ⟨rfl, rfl⟩
  | @openSession i directory =>
    obtain ⟨id, d, t, tokens, heq, -, -, ht, -⟩ := openSession_eq w i directory
    rw [heq]
    exact .inl ⟨ht.declared, ht.shown⟩
  | release => exact .inl ⟨rfl, rfl⟩
  | @enter i row path =>
    obtain ⟨d, hd⟩ := entered_eq w i row path { w.conns i with
      sink := some i
      maxBodyBytes := (w.transfer.entry row).size }
    rw [hd]
    exact .inl (marked ..)
  | mark => exact .inl (marked ..)
  | @drop i u _ error =>
    obtain ⟨d, hd⟩ := dropUpload_eq i u error w
    rw [hd]
    exact .inl (marked ..)
  | @settle i u hu =>
    have hs := h.served i u hu
    obtain ⟨f, hf, hp, -⟩ := hs.handle
    obtain ⟨d, ⟨status, error, -, heq⟩ | ⟨path, content, -, -, -, -, heq⟩⟩ :=
      settleUpload_spec (w := { w with uploads := w.uploads.erase i }) i (hs.file.symm ▸ hf) hp
    · rw [heq]
      exact .inl (marked ..)
    · rw [heq]
      have ht := TransferModel.alike_setFileLocalPath w.transfer u.row path
      obtain ⟨h1, h2⟩ := marked (w.transfer.setFileLocalPath u.row path) u.row .done []
      exact .inl ⟨h1.trans ht.declared, h2.trans ht.shown⟩
  | remember =>
    left
    unfold rememberPeer
    split <;> exact ⟨rfl, rfl⟩
  | record =>
    left
    unfold writeHistory
    split <;> exact ⟨rfl, rfl⟩
  | finish => exact .inl ⟨rfl, rfl⟩
  | posted => exact .inl ⟨rfl, rfl⟩

/-- A connection keeps what an act may not change. -/
theorem Act.kept {g : Guard} {v : World} (ha : Act g w v) (h : w.Inv) :
    w.nextConn ≤ v.nextConn ∧ ∀ j < w.nextConn, (w.conns j).Kept (v.conns j) := by
  have same : ∀ {v : World}, v.conns = w.conns → v.nextConn = w.nextConn →
      w.nextConn ≤ v.nextConn ∧ ∀ j < w.nextConn, (w.conns j).Kept (v.conns j) :=
    fun hc hn => ⟨le_of_eq hn.symm, fun j _ => by rw [hc]; exact .refl _⟩
  have update : ∀ {i c} {v : World}, (w.conns i).Kept c → v.conns = Function.update w.conns i c →
      v.nextConn = w.nextConn →
      w.nextConn ≤ v.nextConn ∧ ∀ j < w.nextConn, (w.conns j).Kept (v.conns j) := by
    intro i c v hk hc hn
    refine ⟨le_of_eq hn.symm, fun j _ => ?_⟩
    rw [hc]
    by_cases hj : j = i
    · subst hj
      rwa [Function.update_self]
    · rw [Function.update_of_ne hj]
      exact .refl _
  cases ha with
  | outside => exact same rfl rfl
  | aside => exact same rfl rfl
  | files => exact same rfl rfl
  | probe => exact same rfl rfl
  | conns hf => exact ⟨le_rfl, fun j _ => (hf j).toStep.kept⟩
  | read _ hc => exact update hc.kept rfl rfl
  | complete => exact update (HttpConnection.Follows.complete _).kept rfl rfl
  | reply _ _ hc => exact update (HttpConnection.Follows.of_reply hc.toStep).kept rfl rfl
  | connect _ address certificate =>
    refine ⟨Nat.le_succ _, fun j hj => ?_⟩
    rw [show (w.connect address certificate).conns j = w.conns j from
      Function.update_of_ne (Nat.ne_of_lt hj) _ _]
    exact .refl _
  | transfer => exact same rfl rfl
  | @wrote i f data _ hb =>
    refine update (c := { w.conns i with
      bodyReceived := (w.conns i).bodyReceived + data.length }) { HttpConnection.Kept.refl _ with
      complete := fun hf => absurd (hb.2.symm.trans hf) (by decide) } ?_ ?_
    · rw [setConn, conns_write]
    · rw [setConn, nextConn_write]
  | short _ hb _ _ hc =>
    refine update hc.toStep.kept ?_ ?_
    · rw [setConn, conns_write]
    · rw [setConn, nextConn_write]
  | park => exact same rfl rfl
  | prompt => exact same rfl rfl
  | @openSession i directory hp =>
    obtain ⟨id, d, t, tokens, heq, -⟩ := openSession_eq w i directory
    rw [heq]
    exact same rfl rfl
  | release => exact same rfl rfl
  | @enter i row path _ hadm =>
    obtain ⟨d, hd⟩ := entered_eq w i row path { w.conns i with
      sink := some i
      maxBodyBytes := (w.transfer.entry row).size }
    rw [hd]
    exact update (c := { w.conns i with
      sink := some i
      maxBodyBytes := (w.transfer.entry row).size }) { HttpConnection.Kept.refl _ with
      complete := fun hf => absurd (hadm.inBody.2.symm.trans hf) (by decide) } rfl rfl
  | mark => exact same rfl rfl
  | @drop i u c error hu hc hst =>
    obtain ⟨d, hd⟩ := dropUpload_eq i u error w
    rw [hd]
    exact update hc.toStep.kept rfl rfl
  | @settle i u hu =>
    obtain ⟨f, hf, hp, -⟩ := (h.served i u hu).handle
    obtain ⟨d, ⟨status, error, -, heq⟩ | ⟨path, content, -, -, -, -, heq⟩⟩ :=
      settleUpload_spec (w := { w with uploads := w.uploads.erase i }) i
        ((h.served i u hu).file.symm ▸ hf) hp
    all_goals
      rw [heq]
      exact same rfl rfl
  | remember =>
    unfold rememberPeer
    split <;> exact same rfl rfl
  | record =>
    unfold writeHistory
    split <;> exact same rfl rfl
  | finish => exact same rfl rfl
  | posted => exact same rfl rfl

/-- What a connection has read is touched only while it reads. -/
theorem Act.unread {g : Guard} {v : World} {i : ConnId} (ha : Act g w v) (hi : i < w.nextConn)
    (hr : ¬ g.reads i) : i < v.nextConn ∧ (w.conns i).Unread (v.conns i) := by
  have same : ∀ {v : World}, v.conns = w.conns → v.nextConn = w.nextConn →
      i < v.nextConn ∧ (w.conns i).Unread (v.conns i) := by
    intro v hc hn
    rw [hc, hn]
    exact ⟨hi, .refl _⟩
  have update : ∀ {k c} {v : World}, v.conns = Function.update w.conns k c →
      v.nextConn = w.nextConn → (k = i → (w.conns k).Unread c) →
      i < v.nextConn ∧ (w.conns i).Unread (v.conns i) := by
    intro k c v hv hn hc
    rw [hv, hn]
    refine ⟨hi, ?_⟩
    by_cases hk : i = k
    · subst hk
      rw [Function.update_self]
      exact hc rfl
    · rw [Function.update_of_ne hk]
      exact .refl _
  cases ha with
  | conns hf => exact ⟨hi, (hf i).unread⟩
  | read hk => exact update rfl rfl fun hki => absurd (hki ▸ hk) hr
  | complete hk => exact update rfl rfl fun hki => absurd (hki ▸ hk) hr
  | reply _ _ hc => exact update rfl rfl fun _ => .of_reply hc
  | connect _ address certificate =>
    refine ⟨Nat.lt_succ_of_lt hi, ?_⟩
    rw [show (w.connect address certificate).conns i = w.conns i from
      Function.update_of_ne (Nat.ne_of_lt hi) _ _]
    exact .refl _
  | @wrote k f data hk =>
    refine update (k := k) (c := { w.conns k with
      bodyReceived := (w.conns k).bodyReceived + data.length }) ?_ ?_
      fun hki => absurd (hki ▸ hk) hr
    · rw [setConn, conns_write]
    · rw [setConn, nextConn_write]
  | @short k f data c hk =>
    refine update (k := k) (c := c) ?_ ?_ fun hki => absurd (hki ▸ hk) hr
    · rw [setConn, conns_write]
    · rw [setConn, nextConn_write]
  | @openSession k directory =>
    obtain ⟨id, d, t, tokens, heq, -⟩ := openSession_eq w k directory
    rw [heq]
    exact same rfl rfl
  | @enter k row path hk =>
    obtain ⟨d, hd⟩ := entered_eq w k row path { w.conns k with
      sink := some k
      maxBodyBytes := (w.transfer.entry row).size }
    rw [hd]
    exact update rfl rfl fun hki => absurd (hki ▸ hk) hr
  | @drop k u c error _ hc =>
    obtain ⟨d, hd⟩ := dropUpload_eq k u error w
    rw [hd]
    exact update rfl rfl fun _ => hc.unread
  | @settle k u =>
    obtain ⟨d, t, l, heq⟩ := settleUpload_eq k u { w with uploads := w.uploads.erase k }
    rw [heq]
    exact same rfl rfl
  | remember =>
    unfold rememberPeer
    split <;> exact same rfl rfl
  | record =>
    unfold writeHistory
    split <;> exact same rfl rfl
  | _ => exact same rfl rfl

theorem Acts.unread {g : Guard} {v : World} {i : ConnId} (ha : Acts g w v) (hi : i < w.nextConn)
    (hr : ¬ g.reads i) : i < v.nextConn ∧ (w.conns i).Unread (v.conns i) := by
  induction ha with
  | refl => exact ⟨hi, .refl _⟩
  | tail _ ha ih =>
    obtain ⟨hborn, hu⟩ := ha.unread ih.1 hr
    exact ⟨hborn, ih.2.trans hu⟩

theorem Acts.kept {g : Guard} {v : World} (ha : Acts g w v) (h : w.Inv) :
    w.nextConn ≤ v.nextConn ∧ ∀ j < w.nextConn, (w.conns j).Kept (v.conns j) := by
  induction ha with
  | refl => exact ⟨le_rfl, fun j _ => .refl _⟩
  | tail hacts ha ih =>
    obtain ⟨h1, h2⟩ := ha.kept (Acts.inv hacts h)
    exact ⟨ih.1.trans h1, fun j hj => (ih.2 j hj).trans (h2 j (Nat.lt_of_lt_of_le hj ih.1))⟩

end

end World

end LocalSend
