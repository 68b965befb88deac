import LocalSend.Receive.Proof.Answered

/-!
# A connection the service does not hang on

A connection that is not parked and has no upload on the table changes nothing but itself while it
reads, whatever it reads, unless it comes to upload from the address of the session
(`heard_apart`).
-/

set_option autoImplicit false

namespace LocalSend

namespace World

variable {w v : World} {i : ConnId}

/-- Only the connection `i` changed. -/
def Alone (i : ConnId) (w v : World) : Prop := ∃ c, v = w.setConn i c

theorem Alone.refl (i : ConnId) (w : World) : Alone i w w :=
  ⟨w.conns i, by rw [setConn, Function.update_eq_self]⟩

theorem Alone.setConn (h : Alone i w v) (c : HttpConnection) : Alone i w (v.setConn i c) := by
  obtain ⟨d, rfl⟩ := h
  exact ⟨c, setConn_setConn w i d c⟩

theorem Alone.trans {u : World} (h : Alone i w v) (h' : Alone i v u) : Alone i w u := by
  obtain ⟨c, rfl⟩ := h'
  exact h.setConn c

/-- Nothing of the service hangs on the connection. -/
structure Loose (i : ConnId) (w : World) : Prop where
  pending : w.pending ≠ some i
  upload : w.uploads.lookup i = none

theorem Loose.setConn (h : Loose i w) (c : HttpConnection) : Loose i (w.setConn i c) :=
  ⟨h.pending, h.upload⟩

theorem Loose.alone (h : Loose i w) (ha : Alone i w v) : Loose i v := by
  obtain ⟨c, rfl⟩ := ha
  exact h.setConn c

section
variable [Qt]

/-! ## Answers -/

theorem Loose.closed (h : Loose i w) : (port i).closed w = w := by
  change onUploadClosed i (onPendingClosed i w) = w
  rw [onPendingClosed, if_pos h.pending, onUploadClosed, h.upload]

theorem Loose.modify (h : Loose i w) (f : HttpConnection → HttpConnection) :
    Loose i ((port i).modify f w) := h.setConn _

theorem Loose.hangUp (h : Loose i w) : ∃ c, (port i).hangUp w = w.setConn i c ∧
    ((w.conns i).state = .responded → c.state = .responded) ∧ c.sent = (w.conns i).sent := by
  unfold Port.hangUp Port.onDisconnected
  split
  · exact ⟨_, rfl, id, rfl⟩
  · rw [((h.modify _).modify _).closed, Port.modify_modify]
    exact ⟨_, rfl, fun _ => rfl, rfl⟩

theorem Loose.transmit (h : Loose i w) (hst : (w.conns i).state = .responded) (status : Nat)
    (payload contentType : QByteArray) :
    ∃ c, (port i).transmit status payload contentType w = w.setConn i c ∧ c.state = .responded ∧
      c.sent = (w.conns i).sent ++ if (w.conns i).connected = true then
        [.response ⟨status, contentType, (w.conns i).extraHeaders, payload⟩] else [] := by
  unfold Port.transmit
  split
  · rename_i hconn
    have hconn : (w.conns i).connected = true := hconn
    rw [if_pos hconn]
    extract_lets w₁ w₂
    obtain ⟨c, hw₂, hst₂, hsent₂⟩ : ∃ c, w₂ = w.setConn i c ∧ c.state = .responded ∧
        c.sent = (w.conns i).sent ++
          [.response ⟨status, contentType, (w.conns i).extraHeaders, payload⟩] := by
      simp only [w₂]
      split
      · obtain ⟨c, hc, hst₁, hsent₁⟩ := Loose.hangUp (w := w₁) (h.setConn _)
        refine ⟨c, hc.trans (setConn_setConn _ _ _ _), hst₁ ?_, hsent₁.trans ?_⟩
        · exact (congrArg HttpConnection.state (conns_setConn _ _ _)).trans hst
        · exact congrArg HttpConnection.sent (conns_setConn _ _ _)
      · exact ⟨_, rfl, hst, rfl⟩
    have hget : (port i).get w₂ = c := by
      rw [hw₂]
      exact conns_setConn _ _ _
    split
    · refine ⟨{ c with connected := false }, ?_, hst₂, hsent₂⟩
      rw [Port.modify, hget, hw₂]
      exact setConn_setConn _ _ _ _
    · refine ⟨{ c with
        idleTimer := some (c.now + DrainTimeoutMs)
        idleInterval := DrainTimeoutMs }, ?_, hst₂, hsent₂⟩
      rw [Port.modify, hget, hw₂]
      exact setConn_setConn _ _ _ _
  · rename_i hconn
    have hconn : ¬ (w.conns i).connected = true := hconn
    rw [if_neg hconn, List.append_nil]
    exact ⟨w.conns i, (by rw [World.setConn, Function.update_eq_self]), hst, rfl⟩

/-- An answer is on the connection. -/
theorem Loose.respond (h : Loose i w) (status : Nat) (payload contentType : QByteArray) :
    ∃ c, (port i).respond status payload contentType w = w.setConn i c ∧ c.state = .responded ∧
      ((w.conns i).state ≠ .responded → c.sent = (w.conns i).sent ++
        if (w.conns i).connected = true then
          [.response ⟨status, contentType, (w.conns i).extraHeaders, payload⟩] else []) := by
  unfold Port.respond
  split
  · rename_i hst
    have hst : (w.conns i).state = .responded := hst
    exact ⟨w.conns i, (by rw [World.setConn, Function.update_eq_self]), hst, absurd hst⟩
  · obtain ⟨c, hc, hst, hsent⟩ := Loose.transmit (w := w.setConn i { w.conns i with
        state := .responded
        idleTimer := none }) (h.setConn _) (congrArg HttpConnection.state (conns_setConn _ _ _))
      status payload contentType
    rw [conns_setConn] at hsent
    exact ⟨c, hc.trans (setConn_setConn _ _ _ _), hst, fun _ => hsent⟩

theorem Loose.respond_alone (h : Loose i w) (status : Nat) (payload contentType : QByteArray) :
    Alone i w ((port i).respond status payload contentType w) := by
  obtain ⟨c, hc, -⟩ := h.respond status payload contentType
  exact ⟨c, hc⟩

/-! ## Reading -/

/-- What `i` sends is an upload, from the address of the session. -/
structure Uploading (i : ConnId) (w v : World) : Prop where
  open_ : w.sessionId ≠ []
  address : (w.conns i).peerAddress = w.sessionAddress
  head : (v.conns i).state ≠ .readingHeaders
  path : (v.conns i).path = endpoint Protocol.PathUpload

def Apart (i : ConnId) (w v : World) : Prop := Alone i w v ∨ Uploading i w v

theorem Uploading.acts {u : World} {g : Guard} (h : Uploading i w v) (hv : v.Inv)
    (hi : i < v.nextConn) (ha : Acts g v u) : Uploading i w u := by
  have hkept := ((ha.kept hv).2 i hi).request h.head
  exact ⟨h.open_, h.address, hkept.1, hkept.2.2.1.trans h.path⟩

/-- An upload that is not of the session is turned away at its headers. -/
theorem handleUploadHeaders_alone (h : Loose i w)
    (hne : ¬ (w.sessionId ≠ [] ∧ (w.conns i).peerAddress = w.sessionAddress)) :
    Alone i w (w.handleUploadHeaders i) := by
  unfold handleUploadHeaders
  extract_lets sessionId fileId token
  split
  · exact h.respond_alone _ _ _
  split
  · exact h.respond_alone _ _ _
  rename_i hses
  split
  · exact h.respond_alone _ _ _
  rename_i hauth
  exact absurd ⟨(not_or.1 hses).1, not_not.1 (not_or.1 hauth).2⟩ hne

theorem onHeadersReady_apart (h : Loose i w)
    (hst : ((w.onHeadersReady i).conns i).state ≠ .readingHeaders)
    (hpath : ((w.onHeadersReady i).conns i).path = (w.conns i).path) :
    Apart i w (w.onHeadersReady i) := by
  by_cases hup : (w.conns i).path = endpoint Protocol.PathUpload
  · by_cases hses : w.sessionId ≠ [] ∧ (w.conns i).peerAddress = w.sessionAddress
    · exact .inr ⟨hses.1, hses.2, hst, hpath.trans hup⟩
    · refine .inl ?_
      unfold onHeadersReady
      rw [if_pos hup]
      exact handleUploadHeaders_alone h hses
  · refine .inl ?_
    unfold onHeadersReady
    rw [if_neg hup]
    exact .refl i w

omit [Qt] in
theorem Alone.apart {u : World} (h : Alone i w v) (h' : Apart i v u)
    (hc : (v.conns i).peerAddress = (w.conns i).peerAddress) : Apart i w u := by
  obtain ⟨c, rfl⟩ := h
  rcases h' with h' | h'
  · exact .inl (Alone.trans ⟨c, rfl⟩ h')
  · exact .inr ⟨h'.open_, hc.symm.trans h'.address, h'.head, h'.path⟩

/-- A connection that reads stays apart. -/
theorem Apart.acts {u : World} {data : QByteArray} (hv : Apart i w v) (h : w.Inv)
    (hi : i < w.nextConn) (hr : Reading i w data v) (ha : Acts (.reading i) v u)
    (halone : Alone i w v → Apart i w u) : Apart i w u := by
  rcases hv with hv | hv
  · exact halone hv
  · exact .inr (hv.acts (hr.1.acts.inv h) (hr.1.born h hi) ha)

/-- Nothing that reads the body of a loose connection streams. -/
theorem Loose.sink (hl : Loose i w) (h : w.Inv) (hb : (w.conns i).InBody) :
    (w.conns i).sink = none := by
  cases hsink : (w.conns i).sink with
  | none => rfl
  | some f =>
    obtain ⟨-, u, hu⟩ := h.streaming i f hsink hb
    exact absurd (hl.upload.symm.trans hu) nofun

omit [Qt] in
theorem Loose.onBodyProgress (hl : Loose i w) : w.onBodyProgress i = w := by
  unfold World.onBodyProgress
  rw [hl.upload]

omit [Qt] in
theorem Loose.progressed (hl : Loose i w) (ha : Alone i w v) : Alone i w (v.onBodyProgress i) := by
  rw [(hl.alone ha).onBodyProgress]
  exact ha

theorem apart_rule (h : w.Inv) (hlive : w.live i = true) (hl : Loose i w) :
    (host i).Rule (fun data v => Reading i w data v ∧ Apart i w v)
      (fun v => Stopped i w v ∧ Apart i w v) := by
  have base : ∀ {v data}, Reading i w data v → (host i).Rule (Reading i v) (Stopped i v) :=
    fun hr => host_rule (hr.1.acts.inv h) (hr.1.live h hlive)
  have self : ∀ {v data}, Reading i w data v → ∀ bytes, Reading i v bytes v :=
    fun hr _ => ⟨.refl i _, hr.2⟩
  have answer : ∀ {v} status payload contentType, Alone i w v →
      Apart i w ((port i).respond status payload contentType v) :=
    fun _ _ _ hv => .inl (hv.trans ((hl.alone hv).respond_alone _ _ _))
  have rule := host_rule h hlive
  have hi : i < w.nextConn := born_of_live hlive
  exact {
    get_bodyProgress := rule.get_bodyProgress
    get_write := rule.get_write
    stop := fun hI hrests => ⟨rule.stop hI.1 hrests, hI.2⟩
    turn := fun hI hb ht => by
      refine ⟨rule.turn hI.1 hb ht, hI.2.acts h hi hI.1 ?_ fun ha => .inl (ha.setConn _)⟩
      exact ((base hI.1).turn (self hI.1 []) hb ht).1.acts
    take := fun n hI hb => by
      refine ⟨rule.take n hI.1 hb, hI.2.acts h hi hI.1 ?_ fun ha => .inl (ha.setConn _)⟩
      exact ((base hI.1).take n (self hI.1 []) hb).1.acts
    respond := fun status payload contentType hI hb hs => by
      refine ⟨rule.respond status payload contentType hI.1 hb hs,
        hI.2.acts h hi hI.1 ?_ (answer _ _ _)⟩
      exact ((base hI.1).respond status payload contentType (self hI.1 []) hb hs).1
    keep := fun {s data} hI hb hsink hroom => by
      refine ⟨rule.keep hI.1 hb hsink hroom, hI.2.acts h hi hI.1 ?_ fun ha => .inl ?_⟩
      · exact ((base hI.1).keep (self hI.1 data) hb hsink hroom).1.acts
      · exact hl.progressed (ha.setConn _)
    write := fun {s f data} hI hb hsink hroom hw => by
      refine ⟨rule.write hI.1 hb hsink hroom hw, hI.2.acts h hi hI.1 ?_ fun ha => ?_⟩
      · exact ((base hI.1).write (self hI.1 data) hb hsink hroom hw).1.acts
      · have hnone := (hl.alone ha).sink (hI.1.1.acts.inv h) hb
        exact absurd (hnone.symm.trans hsink) nofun
    short := fun {s f data} hI hb hsink hroom hw => by
      refine ⟨rule.short hI.1 hb hsink hroom hw, hI.2.acts h hi hI.1 ?_ fun ha => ?_⟩
      · exact ((base hI.1).short (self hI.1 data) hb hsink hroom hw).1
      · have hnone := (hl.alone ha).sink (hI.1.1.acts.inv h) hb
        exact absurd (hnone.symm.trans hsink) nofun
    longHead := fun hI hs hfin hlen => by
      refine ⟨rule.longHead hI.1 hs hfin hlen, hI.2.acts h hi hI.1 ?_ (answer _ _ _)⟩
      exact ((base hI.1).longHead (self hI.1 []) hs hfin hlen).1
    badHead := fun hI hread => by
      refine ⟨rule.badHead hI.1 hread,
        hI.2.acts h hi hI.1 ?_ fun ha => answer _ _ _ (ha.setConn _)⟩
      exact ((base hI.1).badHead (self hI.1 []) hread).1
    headers := fun {s c} hI hread hm => by
      obtain ⟨hQ, hgo⟩ := rule.headers hI.1 hread hm
      obtain ⟨hstep, hst, -⟩ := hread.step
      have hset : Near i s (s.setConn i c) := .setConn hstep hread.closedEmitted
      have hinv := hI.1.1.acts.inv h
      have hhead : ((s.setConn i c).conns i).state ≠ .readingHeaders := by
        rw [conns_setConn, hst]
        exact State.noConfusion
      have hset' : (s.setConn i c).Inv := hset.acts.inv hinv
      have hborn : i < (s.setConn i c).nextConn := hI.1.1.born h hi
      have hb : ((s.setConn i c).conns i).InBody := by
        rw [conns_setConn]
        exact ⟨hst, hstep.bodyComplete.trans hI.1.2⟩
      have hlive' := hset.live hinv (hI.1.1.live h hlive)
      have hacts := (onHeadersReady_heads hset' hlive' hb (hinv.fresh i hread.1).2).acts
      have hkept := ((hacts.kept hset').2 i hborn).request hhead
      have hapart : Apart i w (World.onHeadersReady i (s.setConn i c)) := by
        refine hI.2.acts h hi hI.1 (hset.acts.trans hacts) fun ha => ?_
        refine (ha.setConn c).apart ?_ ?_
        · exact onHeadersReady_apart (hl.alone (ha.setConn c)) hkept.1 hkept.2.2.1
        · rw [conns_setConn, hstep.address]
          exact ((hI.1.1.acts.kept h).2 i hi).address
      exact ⟨fun hne => ⟨hQ hne, hapart⟩, fun hgoes => ⟨⟨(hgo hgoes).1, hapart⟩, (hgo hgoes).2⟩⟩
    preflight := fun hI hread hm => by
      refine ⟨rule.preflight hI.1 hread hm,
        hI.2.acts h hi hI.1 ?_ fun ha => answer _ _ _ (ha.setConn _)⟩
      exact ((base hI.1).preflight (self hI.1 []) hread hm).1 }

/-- Whatever a loose connection reads, it is on its own, or uploads from the session's address. -/
theorem heard_apart (h : w.Inv) (hlive : w.live i = true) (hl : Loose i w) (data : QByteArray) :
    Apart i w (w.heard i data) := by
  by_cases hlate : (w.conns i).state = .responded ∨ (w.conns i).bodyComplete = true
  · exact .inl ⟨_, Host.onReadyRead_late (host i).mute data hlate⟩
  obtain ⟨hst, hc⟩ := not_or.1 hlate
  rw [Bool.not_eq_true] at hc
  have hI : Reading i w [] ((host i).modify (HttpConnection.feed data) w) ∧
      Apart i w ((host i).modify (HttpConnection.feed data) w) := by
    refine ⟨⟨.setConn { HttpConnection.Step.refl _ with } rfl, ?_⟩, .inl ⟨_, rfl⟩⟩
    change (World.conns (World.setConn i _ _) i).bodyComplete = false
    rw [conns_setConn]
    exact hc
  rcases (apart_rule h hlive hl).onReadyRead data hst hc hI with ⟨heq, hQ⟩ | ⟨s, hs, -, -, hr, -⟩
  · rw [show w.heard i data = _ from heq.symm]
    exact hQ.2
  · rw [show w.heard i data = _ from hr]
    rcases hs.2 with ha | hup
    · exact .inl (ha.setConn _)
    · have hget : (((host i).modify HttpConnection.completed s).conns i) =
          (s.conns i).completed := conns_setConn _ _ _
      refine .inr ⟨hup.open_, hup.address, ?_, ?_⟩
      · rw [hget]
        exact hup.head
      · rw [hget]
        exact hup.path

end

end World

end LocalSend
