import LocalSend.Receive.Proof.Slots

/-!
# Every event is a chain of acts

Reading is the long case. As long as a connection reads, only its own upload changes
(`World.Reads`), and when its request is in, `onRequestReady` runs on what it read
(`readyRead_comes`); everything before is a chain of acts that read. So what a run promises of its
events (`Permits`) becomes a condition on the acts (`step_acts`).
-/

set_option autoImplicit false

namespace LocalSend

/-- The event comes from outside the service. -/
def Event.outside : Event → Bool
  | .readyRead .. | .disconnected _ | .idleTimeout _ | .headerDeadline _ => false
  | .accept | .decline | .cancel | .acceptTimeout | .sessionIdle => false
  | .discovered _ | .otherFiles _ | .fate .. => false
  | _ => true

namespace World

@[simp] theorem conns_onBodyProgress (i : ConnId) (w : World) :
    (w.onBodyProgress i).conns = w.conns := by
  unfold onBodyProgress
  split <;> rfl

variable [Qt] {g : Guard} {w v : World} {i : ConnId}

omit [Qt] in
theorem live_iff : w.live i = true ↔ i < w.nextConn ∧ (w.conns i).closedEmitted = false := by
  simp [live]

omit [Qt] in
theorem born_of_live (h : w.live i = true) : i < w.nextConn := (live_iff.1 h).1

/-- Between `w` and `v` the connection `i` only read. -/
structure Near (i : ConnId) (w v : World) : Prop where
  acts : Acts (.reading i) w v
  conns : ∀ j, j ≠ i → v.conns j = w.conns j
  uploads : ∀ j, j ≠ i → v.uploads.lookup j = w.uploads.lookup j
  pending : v.pending = w.pending
  sessionId : v.sessionId = w.sessionId
  closed : (v.conns i).closedEmitted = (w.conns i).closedEmitted

theorem Near.refl (i : ConnId) (w : World) : Near i w w :=
  ⟨.refl, fun _ _ => rfl, fun _ _ => rfl, rfl, rfl, rfl⟩

theorem Near.trans {u : World} (h : Near i w v) (h' : Near i v u) : Near i w u where
  acts := h.acts.trans h'.acts
  conns j hj := (h'.conns j hj).trans (h.conns j hj)
  uploads j hj := (h'.uploads j hj).trans (h.uploads j hj)
  pending := h'.pending.trans h.pending
  sessionId := h'.sessionId.trans h.sessionId
  closed := h'.closed.trans h.closed

theorem Near.setConn {c : HttpConnection} (h : (w.conns i).Step c)
    (hc : c.closedEmitted = (w.conns i).closedEmitted) : Near i w (w.setConn i c) where
  acts := .single (.read rfl h fun _ => hc)
  conns _ hj := Function.update_of_ne hj _ _
  uploads _ _ := rfl
  pending := rfl
  sessionId := rfl
  closed := by rw [conns_setConn, hc]

/-- The request of `i` is in: what the service is handed is `v`. -/
structure Reads (i : ConnId) (w v : World) : Prop extends Near i w v where
  state : (v.conns i).state = .readingBody
  complete : (v.conns i).bodyComplete = true

/-- While `i` reads. -/
def Reading (i : ConnId) (w : World) (_ : QByteArray) (v : World) : Prop :=
  Near i w v ∧ (v.conns i).bodyComplete = false

/-- The last of the body was read. -/
theorem Reading.finish {data : QByteArray} (hI : Reading i w data v) (hb : (v.conns i).InBody) :
    Reads i w ((host i).modify HttpConnection.completed v) where
  acts := hI.1.acts.tail (.complete rfl hb)
  conns j hj := (Function.update_of_ne hj _ _).trans (hI.1.conns j hj)
  uploads := hI.1.uploads
  pending := hI.1.pending
  sessionId := hI.1.sessionId
  closed := by
    change (World.conns (World.setConn i _ _) i).closedEmitted = _
    rw [conns_setConn]
    exact hI.1.closed
  state := by
    change (World.conns (World.setConn i _ _) i).state = _
    rw [conns_setConn]
    exact hb.1
  complete := by
    change (World.conns (World.setConn i _ _) i).bodyComplete = _
    rw [conns_setConn]
    rfl

/-- `i` does not go on reading for now, and its request is not in. -/
def Stopped (i : ConnId) (w v : World) : Prop :=
  Acts (.reading i) w v ∧ (v.conns i).bodyComplete = false

theorem respond_unread (hi : i < w.nextConn) (status : Nat) (payload contentType : QByteArray) :
    (w.conns i).Unread (((port i).respond status payload contentType w).conns i) ∧
      (((port i).respond status payload contentType w).conns i).state = .responded :=
  (port_of (g := .quiet) i).respond_unread trivial id hi status payload contentType

theorem Near.onBodyProgress (i : ConnId) (w : World) : Near i w (w.onBodyProgress i) where
  acts := onBodyProgress_acts w
  conns _ _ := by rw [conns_onBodyProgress]
  uploads _ _ := by
    unfold World.onBodyProgress
    split <;> rfl
  pending := by
    unfold World.onBodyProgress
    split <;> rfl
  sessionId := by
    unfold World.onBodyProgress
    split <;> rfl
  closed := by rw [conns_onBodyProgress]

/-! ## The headers -/

/-- The connection has stopped reading, or only read on the way. -/
structure Heads (i : ConnId) (w v : World) : Prop where
  acts : Acts (.reading i) w v
  unread : (w.conns i).Unread (v.conns i)
  near : (v.conns i).state = .readingBody → Near i w v

/-- `i` is answered while it reads. -/
theorem Stopped.respond (h : w.Inv) (hi : i < w.nextConn) (hv : Stopped i w v)
    {status : Nat} {payload contentType : QByteArray}
    (hr : v.MayAnswer i ⟨status, contentType, (v.conns i).extraHeaders, payload⟩) :
    Stopped i w ((port i).respond status payload contentType v) :=
  ⟨hv.1.trans ((port_of i).respond_acts trivial hr),
    (respond_unread (Nat.lt_of_lt_of_le hi (hv.1.kept h).1) _ _ _).1.bodyComplete.trans hv.2⟩

theorem Heads.respond {status : Nat} (h : w.Inv) (hi : i < w.nextConn) (hv : Acts (.reading i) w v)
    (hu : (w.conns i).Unread (v.conns i))
    (hr : v.MayAnswer i ⟨status, jsonType, (v.conns i).extraHeaders, []⟩) :
    Heads i w (v.respond i status) := by
  obtain ⟨hread, hst⟩ := respond_unread (Nat.lt_of_lt_of_le hi (hv.kept h).1) status [] jsonType
  exact {
    acts := hv.trans ((port_of i).respond_acts trivial hr)
    unread := hu.trans hread
    near := fun hbody => absurd (hbody.symm.trans hst) State.noConfusion }

/-- The connection is told where its body goes. -/
theorem Near.enter {row : Nat} {path : QString} {disk : Disk} (ha : w.Admits i row)
    (hfree : w.isFree path = true)
    (hopen : w.openFile (path ++ PartSuffix) = (true, { w with disk := disk }))
    (hfolder : w.sessionDirectory ++ str "/" <+: path) :
    Near i w ((World.beginUpload i row path { w with disk := disk }).setConn i { w.conns i with
      sink := some i
      maxBodyBytes := (w.transfer.entry row).size }) where
  acts := by
    have hact := Act.enter (g := .reading i) rfl ha hfree (by rw [hopen]) hfolder
    rw [hopen] at hact
    exact .single hact
  conns _ hj := Function.update_of_ne hj _ _
  uploads _ hj := AList.lookup_insert_ne hj
  pending := rfl
  sessionId := rfl
  closed := by rw [conns_setConn]

theorem handleUploadHeaders_heads (h : w.Inv) (hl : w.live i = true) (hb : (w.conns i).InBody)
    (hnew : w.uploads.lookup i = none)
    (hpath : (w.conns i).path = endpoint Protocol.PathUpload) :
    Heads i w (w.handleUploadHeaders i) := by
  obtain ⟨hi, hup⟩ := live_iff.1 hl
  have hhead : (w.conns i).state ≠ .readingHeaders := by
    rw [hb.1]
    exact State.noConfusion
  have refuse : ∀ {v status}, Acts (.reading i) w v → (w.conns i).Unread (v.conns i) →
      status / 100 ≠ 2 → Heads i w (World.respond i status v) :=
    fun hv hu hs => .respond h hi hv hu (.of_failure hs)
  unfold handleUploadHeaders
  extract_lets sessionId fileId token
  split
  · exact refuse .refl (.refl _) (by decide)
  rename_i hne
  split
  · exact refuse .refl (.refl _) (by decide)
  rename_i hses
  split
  · exact refuse .refl (.refl _) (by decide)
  rename_i hauth
  rcases hrow : w.transfer.indexOfFile fileId with - | row
  · exact refuse .refl (.refl _) (by decide)
  simp only
  obtain ⟨hses₁, hses₂⟩ := not_or.1 hses
  obtain ⟨htoken, haddress⟩ := not_or.1 hauth
  split
  · rename_i hdone
    refine .respond h hi .refl (.refl _) fun _ => ⟨hhead, fun _ _ => ?_, fun hp => ?_,
      .inr fun hnil => ?_⟩
    · exact ⟨hses₁, not_not.1 hses₂, row, hrow, hdone⟩
    · rw [hpath] at hp
      exact absurd hp (by decide)
    · rw [hpath] at hnil
      exact absurd hnil (by decide)
  rename_i hdone
  split
  · exact refuse (.single (.mark hdone FileStatus.noConfusion)) (.refl _) (by decide)
  rename_i hnamed
  obtain ⟨hfree, hfolder⟩ := reserveFilePath_spec rfl hnamed
  revert hfree hfolder
  generalize w.reserveFilePath w.sessionDirectory (w.transfer.entry row).fileName = finalPath
  intro hfree hfolder
  obtain ⟨ok, d, hopen⟩ := openFile_eq (finalPath ++ PartSuffix) w
  rw [hopen]
  cases ok
  · obtain rfl : d = w.disk := by
      unfold openFile at hopen
      split at hopen
      · cases hopen
      · exact (congrArg (fun r : Bool × World => r.2.disk) hopen).symm
    exact refuse (.single (.mark hdone FileStatus.noConfusion)) (.refl _) (by decide)
  simp only
  have hadm : w.Admits i row := {
    inBody := hb
    up := hup
    new := hnew
    path := hpath
    born := hi
    open_ := hses₁
    session := not_not.1 hses₂
    token := ⟨fun h => hne (.inr (.inr h)), not_not.1 htoken⟩
    address := not_not.1 haddress
    found := hrow
    notDone := hdone }
  unfold Port.streamBodyTo
  extract_lets w₂
  have hlet : Near i w w₂ := by
    have hact := Near.enter hadm hfree hopen hfolder
    have hsize : ((beginUpload i row finalPath { w with disk := d }).transfer.entry row).size =
        (w.transfer.entry row).size :=
      TransferModel.size_congr (TransferModel.declared_setFileStatus _ _ _ _) row
    simp only [w₂, hsize]
    exact hact
  have hget : w₂.conns i = { w.conns i with
      sink := some i
      maxBodyBytes := ((beginUpload i row finalPath { w with disk := d }).transfer.entry
        row).size } := Function.update_self _ _ _
  have hunread : (w.conns i).Unread (w₂.conns i) := by
    rw [hget]
    exact { HttpConnection.Unread.refl _ with }
  split
  · exact refuse hlet.acts hunread (by decide)
  · exact ⟨hlet.acts, hunread, fun _ => hlet⟩

theorem onHeadersReady_heads (h : w.Inv) (hl : w.live i = true) (hb : (w.conns i).InBody)
    (hnew : w.uploads.lookup i = none) : Heads i w (w.onHeadersReady i) := by
  unfold onHeadersReady
  split
  · rename_i hpath
    exact handleUploadHeaders_heads h hl hb hnew hpath
  · exact ⟨.refl, .refl _, fun _ => .refl i w⟩

/-! ## Reading -/

theorem Near.born (hn : Near i w v) (h : w.Inv) (hi : i < w.nextConn) : i < v.nextConn :=
  Nat.lt_of_lt_of_le hi (hn.acts.kept h).1

theorem Near.live (hn : Near i w v) (h : w.Inv) (hl : w.live i = true) : v.live i = true :=
  live_iff.2 ⟨hn.born h (born_of_live hl), hn.closed.trans (live_iff.1 hl).2⟩

/-- A segment has come in. -/
theorem Reading.feed (hc : (w.conns i).bodyComplete = false) (data : QByteArray) :
    Reading i w [] ((host i).modify (HttpConnection.feed data) w) := by
  refine ⟨.setConn { HttpConnection.Step.refl _ with } rfl, ?_⟩
  change (World.conns (World.setConn i _ _) i).bodyComplete = false
  rw [conns_setConn]
  exact hc

/-- What the service is shown of `i` when its head has been read. -/
theorem Reading.head {c : HttpConnection} (hI : Reading i w [] v) (h : w.Inv) (hl : w.live i = true)
    (hread : (v.conns i).HeadRead c) : Near i w (v.setConn i c) ∧ (v.setConn i c).Inv ∧
      (v.setConn i c).live i = true ∧ ((v.setConn i c).conns i).InBody ∧
      (v.setConn i c).uploads.lookup i = none := by
  obtain ⟨hstep, hst, -⟩ := hread.step
  have hn : Near i w (v.setConn i c) := hI.1.trans (.setConn hstep hread.closedEmitted)
  refine ⟨hn, hn.acts.inv h, hn.live h hl, ?_, ((hI.1.acts.inv h).fresh i hread.1).2⟩
  rw [conns_setConn]
  exact ⟨hst, hstep.bodyComplete.trans hI.2⟩

/-- A write to a file is to the file of the connection that streams. -/
theorem Near.write {f : FileId} {data : QByteArray} {c : HttpConnection}
    (ha : Acts (.reading i) w ((w.write i f data).2.setConn i c))
    (hc : c.closedEmitted = (w.conns i).closedEmitted) :
    Near i w ((w.write i f data).2.setConn i c) where
  acts := ha
  conns j hj := by
    rw [World.setConn, conns_write]
    exact Function.update_of_ne hj _ _
  uploads _ _ := by
    unfold World.write
    split <;> rfl
  pending := by
    unfold World.write
    split <;> rfl
  sessionId := by
    unfold World.write
    split <;> rfl
  closed := by rw [conns_setConn, hc]

theorem Reading.progressed (hr : Reading i w [] v) : Reading i w [] (v.onBodyProgress i) := by
  refine ⟨hr.1.trans (.onBodyProgress i v), ?_⟩
  rw [conns_onBodyProgress]
  exact hr.2

/-- What is shown of the service for it to read by the rules. -/
theorem host_rule (h : w.Inv) (hl : w.live i = true) :
    (host i).Rule (Reading i w) (Stopped i w) where
  get_bodyProgress s := congrFun (conns_onBodyProgress i s) i
  get_write f data s := congrFun (conns_write i f data s) i
  stop hI _ := ⟨hI.1.acts, hI.2⟩
  turn hI hb ht :=
    ⟨hI.1.trans (.setConn ht.toStep ht.closedEmitted), by
      change (World.conns (World.setConn i _ _) i).bodyComplete = false
      rw [conns_setConn]
      exact ht.bodyComplete.trans hI.2⟩
  take n hI hb :=
    ⟨hI.1.trans (.setConn { HttpConnection.Step.refl _ with } rfl), by
      change (World.conns (World.setConn i _ _) i).bodyComplete = false
      rw [conns_setConn]
      exact hI.2⟩
  respond status payload contentType hI _ hs := .respond h (born_of_live hl) ⟨hI.1.acts, hI.2⟩ (.of_failure hs)
  longHead hI _ _ _ := .respond h (born_of_live hl) ⟨hI.1.acts, hI.2⟩ (.of_failure (by decide))
  keep := by
    intro s data hI hb hsink _
    have hstep : HttpConnection.Step (s.conns i) { s.conns i with
        body := (s.conns i).body ++ data
        bodyReceived := (s.conns i).bodyReceived + data.length } :=
      { HttpConnection.Step.refl _ with
        complete := fun hf => absurd (hI.2.symm.trans hf) (by decide)
        received := fun hs => absurd hsink hs }
    refine Reading.progressed ⟨hI.1.trans (.setConn hstep rfl), ?_⟩
    change (World.conns (World.setConn i _ _) i).bodyComplete = false
    rw [conns_setConn]
    exact hI.2
  write := by
    intro s f data hI hb hsink hroom hw
    have hconn : (s.write i f data).2.conns i = s.conns i := congrFun (conns_write i f data s) i
    have hclosed : ((s.write i f data).2.conns i).closedEmitted = (s.conns i).closedEmitted := by
      rw [hconn]
    have hact := Act.wrote (g := .reading i) rfl hb hsink hroom hw
    refine Reading.progressed ⟨hI.1.trans ?_, ?_⟩
    · rw [← hconn] at hact
      exact .write (.single hact) hclosed
    · change (World.conns (World.setConn i _ _) i).bodyComplete = false
      rw [conns_setConn]
      change ((s.write i f data).2.conns i).bodyComplete = false
      rw [hconn]
      exact hI.2
  short := by
    intro s f data hI hb hsink hroom _
    have hconn : (s.write i f data).2.conns i = s.conns i := congrFun (conns_write i f data s) i
    have hact := Act.short (g := .reading i) (c := { s.conns i with
      state := .responded
      idleTimer := none }) rfl hb hsink hroom (.of_responded { HttpConnection.Idle.refl _ with } rfl)
      rfl fun _ => rfl
    have hst : ((port i).get (s.write i f data).2).state ≠ .responded := by
      intro hr
      have hr' : ((s.write i f data).2.conns i).state = .responded := hr
      rw [hconn] at hr'
      exact absurd (hb.1.symm.trans hr') State.noConfusion
    have hacts := hI.1.acts.tail hact
    change Stopped i _ ((port i).respond 500 [] jsonType (s.write i f data).2)
    rw [Port.respond, if_neg hst]
    rw [← hconn] at hacts
    refine ⟨hacts.trans ((port_of i).transmit_acts trivial (.of_failure (by decide))), ?_⟩
    refine ((port_of (g := .quiet) i).transmit_unread trivial id
      (Nat.lt_of_lt_of_le (born_of_live hl) (Acts.kept hacts h).1) 500 [] jsonType).bodyComplete.trans ?_
    rw [conns_setConn]
    change ((s.write i f data).2.conns i).bodyComplete = false
    rw [hconn]
    exact hI.2
  badHead := by
    intro s c hI hread
    obtain ⟨hstep, -⟩ := hread.step
    refine .respond h (born_of_live hl) ⟨(hI.1.trans (.setConn hstep hread.closedEmitted)).acts, ?_⟩ (.of_failure (by decide))
    rw [conns_setConn]
    exact hstep.bodyComplete.trans hI.2
  headers := by
    intro s c hI hread hm
    obtain ⟨hn, hinv, hlive, hb, hnew⟩ := hI.head h hl hread
    have hheads := onHeadersReady_heads hinv hlive hb hnew
    have hcomp := hheads.unread.bodyComplete.trans hb.2
    exact ⟨fun _ => ⟨hn.acts.trans hheads.acts, hcomp⟩,
      fun hst' => ⟨⟨hn.trans (hheads.near hst'), hcomp⟩, hcomp⟩⟩
  preflight := by
    intro s c hI hread hm
    obtain ⟨hstep, hst, -⟩ := hread.step
    have hn : Near i w (s.setConn i c) := hI.1.trans (.setConn hstep hread.closedEmitted)
    have hs : Stopped i w (s.setConn i c) := by
      refine ⟨hn.acts, ?_⟩
      rw [conns_setConn]
      exact hstep.bodyComplete.trans hI.2
    refine .respond h (born_of_live hl) hs fun _ => ⟨?_, fun _ hm' => ?_, ?_, .inl ?_⟩
    · rw [conns_setConn, hst]
      exact State.noConfusion
    · rw [conns_setConn] at hm'
      exact absurd hm hm'
    · rintro - h200
      cases h200
    · rw [conns_setConn]
      exact hm

/-- What a segment comes to. -/
inductive Comes (i : ConnId) (data : QByteArray) (w : World) : Prop
  /-- The connection has answered, or its request is in. -/
  | late : ((w.conns i).state = .responded ∨ (w.conns i).bodyComplete = true) →
      (host i).onReadyRead data w = w.setConn i { w.conns i with
        idleTimer := some ((w.conns i).now + (w.conns i).idleInterval) } →
      w.heard i data = (host i).onReadyRead data w → Comes i data w
  | part : (w.conns i).bodyComplete = false → Stopped i w (w.heard i data) →
      (host i).onReadyRead data w = w.heard i data → Comes i data w
  | whole : (w.conns i).bodyComplete = false → Reads i w (w.heard i data) →
      (host i).onReadyRead data w = (w.heard i data).onRequestReady i → Comes i data w

theorem readyRead_comes (h : w.Inv) (hl : w.live i = true) (data : QByteArray) :
    Comes i data w := by
  by_cases hlate : (w.conns i).state = .responded ∨ (w.conns i).bodyComplete = true
  · exact .late hlate (Host.onReadyRead_late (host i) data hlate)
      ((Host.onReadyRead_late (host i).mute data hlate).trans
        (Host.onReadyRead_late (host i) data hlate).symm)
  obtain ⟨hst, hc⟩ := not_or.1 hlate
  rw [Bool.not_eq_true] at hc
  rcases (host_rule h hl).onReadyRead data hst hc (.feed hc data) with ⟨heq, hQ⟩ | ⟨s, hs, hb, -, hr, ht⟩
  · refine .part hc ?_ heq
    rw [show w.heard i data = _ from heq.symm]
    exact hQ
  · refine .whole hc ?_ ht
    rw [show w.heard i data = _ from hr]
    exact hs.finish hb

/-- Before the service is handed a request, a connection only reads. -/
theorem heard_acts (h : w.Inv) (hl : w.live i = true) (data : QByteArray) :
    Acts (.reading i) w (w.heard i data) := by
  cases readyRead_comes h hl data with
  | late _ heq hsame =>
    rw [hsame, heq]
    exact setConn_acts { HttpConnection.Idle.refl _ with } fun _ => rfl
  | part _ hs => exact hs.1
  | whole _ hr => exact hr.acts

/-- A request that is in is handed to the service. -/
theorem Completes.reads {data : QByteArray} (hc : w.Completes i data) (h : w.Inv) :
    Reads i w (w.heard i data) ∧
      w.step (.readyRead i data) = (w.heard i data).onRequestReady i := by
  obtain ⟨hlive, hfresh, hdone⟩ := hc
  have hstep : w.step (.readyRead i data) = (host i).onReadyRead data w := if_pos hlive
  cases readyRead_comes h hlive data with
  | late _ heq hsame =>
    rw [hsame, heq, conns_setConn] at hdone
    exact absurd (hdone.symm.trans hfresh) (by decide)
  | part _ hs => exact absurd (hdone.symm.trans hs.2) (by decide)
  | whole _ hr heq => exact ⟨hr, hstep.trans heq⟩

/-- One that is not in yet is only read. -/
theorem step_incomplete (h : w.Inv) (hlive : w.live i = true) {data : QByteArray}
    (hn : ¬ w.Completes i data) : w.step (.readyRead i data) = w.heard i data := by
  have hstep : w.step (.readyRead i data) = (host i).onReadyRead data w := if_pos hlive
  cases readyRead_comes h hlive data with
  | late _ _ hsame => exact hstep.trans hsame.symm
  | part _ _ heq => exact hstep.trans heq
  | whole hfresh hr => exact absurd ⟨hlive, hfresh, hr.complete⟩ hn

/-! ## Events -/

/-- A guard lets an event happen. -/
structure Permits (g : Guard) (w : World) (e : Event) : Prop where
  reads : ∀ i data, e = .readyRead i data → g.reads i
  outside : e.outside = true → g.outside
  system : ∀ env, e = .system env → g.system
  files : ∀ disk, e = .otherFiles disk → g.files w disk
  serves : ∀ i data, e = .readyRead i data → w.Completes i data → Reads i w (w.heard i data) →
    Promises g (w.heard i data) i

theorem permits_all (w : World) (e : Event) : Permits .all w e where
  reads _ _ _ := trivial
  outside _ := trivial
  system _ _ := trivial
  files _ _ := trivial
  serves _ _ _ _ _ := ⟨fun _ => trivial, fun _ _ _ => trivial, fun _ _ _ => trivial⟩

/-- Every event is a chain of acts that its guard allows. -/
theorem step_acts (h : w.Inv) (e : Event) (hg : Permits g w e) : Acts g w (w.step e) := by
  have down : ∀ i (v : World), Acts g v ((port i).hangUp v) :=
    fun i v => (port_of i).hangUp_acts v trivial
  have fail : ∀ i (v : World) {status : Nat}, status / 100 ≠ 2 →
      Acts g v ((port i).fail status v) := fun i v _ hs => (port_of i).fail_acts v trivial hs
  cases e with
  | connect address certificate =>
    simp only [step]
    split
    · exact .single (.connect (hg.outside rfl) _ _)
    · exact .refl
  | readyRead i data =>
    simp only [step]
    split
    · rename_i hlive
      have hread := (heard_acts h hlive data).mono
        (Guard.reading_le (hg.reads i data rfl))
      by_cases hc : w.Completes i data
      · obtain ⟨hr, heq⟩ := hc.reads h
        have hrequest := onRequestReady_acts (hr.acts.inv h) (hr.toNear.born h (born_of_live hlive))
          hr.state hr.complete (hg.serves i data rfl hc hr)
        rw [← show w.step (.readyRead i data) = _ from if_pos hlive, heq]
        exact hread.trans hrequest
      · rw [← show w.step (.readyRead i data) = _ from if_pos hlive, step_incomplete h hlive hc]
        exact hread
    · exact .refl
  | disconnected i =>
    simp only [step]
    split
    · exact down i w
    · exact .refl
  | idleTimeout i =>
    simp only [step]
    split
    · unfold Port.onIdleTimeout
      extract_lets s
      have hs : Acts g w s := setConn_acts { HttpConnection.Idle.refl _ with } fun _ => rfl
      split
      · exact hs.trans (down i s)
      · exact hs.trans (fail i s (by decide))
    · exact .refl
  | headerDeadline i =>
    simp only [step]
    split
    · unfold Port.onHeaderDeadline
      extract_lets s
      have hs : Acts g w s := setConn_acts { HttpConnection.Idle.refl _ with } fun _ => rfl
      split
      · exact hs.trans (fail i s (by decide))
      · exact hs
    · exact .refl
  | accept => exact accept_acts h
  | decline => exact decline_acts h
  | cancel => exact cancel_acts h
  | acceptTimeout =>
    simp only [step]
    split
    · have haside : Act g w { w with acceptTimer := false } := .aside ..
      exact .head haside (onAcceptTimeout_acts (haside.inv h))
    · exact .refl
  | sessionIdle =>
    simp only [step]
    split
    · exact .head (.aside ..) (onSessionIdle_acts _)
    · exact .refl
  | startListening => exact startListening_acts (hg.outside rfl) w
  | stopListening => exact stopListening_acts (hg.outside rfl) w
  | setPort port => exact setPort_acts (hg.outside rfl) port w
  | setReceiveEnabled enabled => exact setReceiveEnabled_acts (hg.outside rfl) enabled w
  | setSecureTransport => exact .single (.outside (hg.outside rfl) le_rfl (.inl rfl) ..)
  | setQuickSave => exact .single (.outside (hg.outside rfl) le_rfl (.inl rfl) ..)
  | setFolderPerSender => exact .single (.outside (hg.outside rfl) le_rfl (.inl rfl) ..)
  | setHistoryEnabled => exact .single (.outside (hg.outside rfl) le_rfl (.inl rfl) ..)
  | setPinEnabled => exact .single (.outside (hg.outside rfl) le_rfl (.inl rfl) ..)
  | setPin => exact .single (.outside (hg.outside rfl) (Nat.le_succ _) (.inl rfl) ..)
  | setDestination => exact .single (.outside (hg.outside rfl) le_rfl (.inl rfl) ..)
  | setBlocked => exact .single (.outside (hg.outside rfl) le_rfl (.inl rfl) ..)
  | forget => exact .single (.outside (hg.outside rfl) le_rfl (.inl rfl) ..)
  | forgetAll => exact .single (.outside (hg.outside rfl) le_rfl (.inl rfl) ..)
  | discovered => exact .single (.aside ..)
  | system env => exact .single (.outside (hg.outside rfl) le_rfl (.inr (hg.system env rfl)) ..)
  | otherFiles disk =>
    simp only [step]
    split
    · exact .single (.files (hg.files disk rfl))
    · exact .refl
  | fate i hangsUp => exact setConn_acts { HttpConnection.Idle.refl _ with } fun _ => rfl
  | tick milliseconds =>
    refine .trans (.single (.conns (f := fun i => { w.conns i with now := w.now + milliseconds })
      (fun i => ?_) fun _ _ => rfl)) (.single (.outside (hg.outside rfl) le_rfl (.inl rfl) ..))
    exact { HttpConnection.Idle.refl _ with }

/-- The invariant holds in every state of every run. -/
theorem reached_inv (h : Lib.Reached system w) : w.Inv := by
  induction h with
  | start hs => exact Start.inv hs
  | @next w e _ _ ih => exact (step_acts ih e (permits_all w e)).inv ih

/-- What every act keeps holds in every state of a run whose events are permitted. -/
theorem reached_keep {ok : World → Event → Prop} {P : World → Prop}
    (hok : ∀ w e, w.Inv → ok w e → Permits g w e)
    (h0 : ∀ w, w.Start → P w) (hact : ∀ {w v}, Act g w v → w.Inv → P w → P v)
    (h : Lib.ReachedBy system ok w) : P w := by
  have hkeep : w.Inv ∧ P w := by
    refine h.invariant (I := fun w => w.Inv ∧ P w) (fun w hs => ⟨Start.inv hs, h0 w hs⟩)
      fun w e hw he => ?_
    exact Acts.keep (P := fun v => v.Inv ∧ P v)
      (fun ha hv => ⟨ha.inv hv.1, hact ha hv.1 hv.2⟩) (step_acts hw.1 e (hok w e hw.1 he)) hw
  exact hkeep.2

end World

end LocalSend
