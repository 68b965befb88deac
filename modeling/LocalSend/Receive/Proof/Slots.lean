import LocalSend.Receive.Proof.Inv
import LocalSend.Receive.Proof.Teardown

/-!
# Every slot is a chain of acts

One lemma for each function of the service. An answer may take the socket down before it returns,
and then the slots of `closed()` run inside it; so the lemma about answers comes first and is about
any port whose `closed` is a chain of acts (`respond_acts`).
-/

set_option autoImplicit false

namespace LocalSend

namespace World

variable {g : Guard} {w : World} {i : ConnId}

variable [Qt]

/-! ## Answers -/

/-- A port of the connection `i`, in worlds with a table on which it may close. -/
structure PortOf (g : Guard) (A : (AList fun _ : ConnId => Upload) → Prop) (P : Port World)
    (i : ConnId) : Prop where
  get : ∀ v, P.get v = v.conns i
  set : ∀ c v, P.set c v = v.setConn i c
  closed : ∀ v c, A v.uploads → (v.conns i).state = .responded → (v.conns i).Idle c →
    Acts g v (P.closed (v.setConn i c))

/-- What an answer needs: a failure is always allowed. -/
def MayAnswer (w : World) (i : ConnId) (r : Response) : Prop :=
  r.Success → (w.conns i).state ≠ .readingHeaders ∧ w.Grants i r

theorem MayAnswer.of_failure {status : Nat} {payload contentType : QByteArray}
    {headers : List (QByteArray × QByteArray)} (h : status / 100 ≠ 2) :
    w.MayAnswer i ⟨status, contentType, headers, payload⟩ := fun hs => absurd hs h

theorem setConn_acts {c : HttpConnection} (h : (w.conns i).Idle c) (hs : w.Stays i c) :
    Acts g w (w.setConn i c) := by
  refine .single (.conns (fun j => ?_) fun j => ?_)
  · by_cases hj : j = i
    · subst hj
      rwa [Function.update_self]
    · rw [Function.update_of_ne hj]
      exact .refl _
  · by_cases hj : j = i
    · subst hj
      rwa [Function.update_self]
    · rw [Function.update_of_ne hj]
      exact fun _ => rfl

/-- The connection says one thing more. -/
theorem setConn_reply {r : Response} (hr : w.MayAnswer i r) : Acts g w
    (w.setConn i { w.conns i with sent := (w.conns i).sent ++ [.response r] }) := by
  by_cases hs : r.Success
  · exact .single (.reply (hr hs).1 (hr hs).2 (.refl _) fun _ => rfl)
  · refine setConn_acts { HttpConnection.Idle.refl _ with
      sent := ⟨[.response r], rfl, fun r' hr' => ?_⟩ } fun _ => rfl
    obtain rfl := Message.response.inj (List.mem_singleton.1 hr')
    exact hs

namespace PortOf

variable {A : (AList fun _ : ConnId => Upload) → Prop} {P : Port World}

theorem modify_acts (h : PortOf g A P i) {f : HttpConnection → HttpConnection}
    (hf : ∀ c : HttpConnection, c.Idle (f c))
    (hs : ∀ c : HttpConnection, (f c).closedEmitted = c.closedEmitted) (w : World) :
    Acts g w (P.modify f w) := by
  rw [Port.modify, h.get, h.set]
  exact setConn_acts (hf _) fun _ => hs _

theorem hangUp_acts (h : PortOf g A P i) (w : World) (hA : A w.uploads) :
    Acts g w (P.hangUp w) := by
  have hdown := h.modify_acts (g := g) (f := fun c => { c with connected := false })
    (fun c => { HttpConnection.Idle.refl c with }) (fun _ => rfl) w
  unfold Port.hangUp
  refine hdown.trans ?_
  have hA₁ : A (P.modify (fun c => { c with connected := false }) w).uploads := by
    rw [Port.modify, h.set]
    exact hA
  generalize P.modify (fun c => { c with connected := false }) w = v at hA₁ ⊢
  unfold Port.onDisconnected
  split
  · exact .refl
  · -- the connection has answered before it closes
    have hmark : Acts g v (v.setConn i { v.conns i with state := .responded }) :=
      setConn_acts (.of_responded { HttpConnection.Idle.refl _ with } rfl) fun _ => rfl
    have hclosed := h.closed (v.setConn i { v.conns i with state := .responded })
      { v.conns i with closedEmitted := true, state := .responded } hA₁
      (by rw [conns_setConn]) (by
        rw [conns_setConn]
        exact { HttpConnection.Idle.refl _ with })
    rw [setConn_setConn] at hclosed
    rw [Port.modify, h.get, h.set]
    exact hmark.trans hclosed

theorem transmit_acts (h : PortOf g A P i) (hA : A w.uploads) {status : Nat}
    {payload contentType : QByteArray}
    (hr : w.MayAnswer i ⟨status, contentType, (w.conns i).extraHeaders, payload⟩) :
    Acts g w (P.transmit status payload contentType w) := by
  have down : ∀ v, Acts g v (P.modify (fun c => { c with connected := false }) v) :=
    h.modify_acts (fun c => { HttpConnection.Idle.refl c with }) fun _ => rfl
  unfold Port.transmit
  split
  · extract_lets w₁ w₂
    have h₁ : Acts g w w₁ := by
      have := setConn_reply (g := g) hr
      rwa [← h.set, ← h.get] at this
    have hA₁ : A w₁.uploads := by
      simp only [w₁, Port.modify, h.set]
      exact hA
    have h₂ : Acts g w₁ w₂ := by
      change Acts g w₁ (if _ then _ else _)
      split
      · exact h.hangUp_acts w₁ hA₁
      · exact .refl
    split
    · exact (h₁.trans h₂).trans (down w₂)
    · exact (h₁.trans h₂).trans (h.modify_acts (f := fun c => { c with
        idleTimer := some (c.now + DrainTimeoutMs)
        idleInterval := DrainTimeoutMs }) (fun c => { HttpConnection.Idle.refl c with })
        (fun _ => rfl) w₂)
  · exact .refl

theorem respond_acts (h : PortOf g A P i) (hA : A w.uploads) {status : Nat} {payload contentType : QByteArray}
    (hr : w.MayAnswer i ⟨status, contentType, (w.conns i).extraHeaders, payload⟩) :
    Acts g w (P.respond status payload contentType w) := by
  unfold Port.respond
  split
  · exact .refl
  · refine (h.modify_acts (f := fun c => { c with state := .responded, idleTimer := none })
      (fun c => .of_responded { HttpConnection.Idle.refl _ with } rfl) (fun _ => rfl) w).trans
      (h.transmit_acts ?_ ?_)
    all_goals rw [Port.modify, h.get, h.set]
    · exact hA
    intro hs
    rw [conns_setConn]
    obtain ⟨-, hup, hprep, hasked⟩ := hr (by rw [conns_setConn] at hs; exact hs)
    refine ⟨State.noConfusion, fun hp hm => ?_, fun hp h200 => ?_, by rwa [conns_setConn]⟩
    · rw [conns_setConn] at hp hm ⊢
      exact hup hp hm
    · rw [conns_setConn] at hp
      exact hprep hp h200

theorem conns_modify (h : PortOf g A P i) (f : HttpConnection → HttpConnection) (w : World) :
    (P.modify f w).conns i = f (w.conns i) := by rw [← h.get, Port.get_modify, h.get]

theorem modify_unread (h : PortOf g A P i) {f : HttpConnection → HttpConnection} (hi : i < w.nextConn)
    (hf : (w.conns i).Unread (f (w.conns i))) :
    i < (P.modify f w).nextConn ∧ (w.conns i).Unread ((P.modify f w).conns i) := by
  refine ⟨?_, ?_⟩
  · rw [Port.modify, h.set]
    exact hi
  · rw [h.conns_modify]
    exact hf

/-- What is answered leaves alone what was read. -/
theorem transmit_unread (h : PortOf g A P i) (hA : A w.uploads) (hg : ¬ g.reads i)
    (hi : i < w.nextConn) (status : Nat) (payload contentType : QByteArray) :
    (w.conns i).Unread ((P.transmit status payload contentType w).conns i) := by
  unfold Port.transmit
  split
  · extract_lets w₁ w₂
    obtain ⟨hi₁, hu₁⟩ : i < w₁.nextConn ∧ (w.conns i).Unread (w₁.conns i) :=
      h.modify_unread hi { HttpConnection.Unread.refl _ with }
    obtain ⟨hi₂, hu₂⟩ : i < w₂.nextConn ∧ (w₁.conns i).Unread (w₂.conns i) := by
      have hA₁ : A w₁.uploads := by
        simp only [w₁, Port.modify, h.set]
        exact hA
      simp only [w₂]
      split
      · exact (h.hangUp_acts w₁ hA₁).unread hi₁ hg
      · exact ⟨hi₁, .refl _⟩
    refine (hu₁.trans hu₂).trans ?_
    split
    · exact (h.modify_unread hi₂ { HttpConnection.Unread.refl _ with }).2
    · exact (h.modify_unread hi₂ { HttpConnection.Unread.refl _ with }).2
  · exact .refl _

/-- Once it has answered, a connection is done. -/
theorem respond_unread (h : PortOf g A P i) (hA : A w.uploads) (hg : ¬ g.reads i)
    (hi : i < w.nextConn) (status : Nat) (payload contentType : QByteArray) :
    (w.conns i).Unread ((P.respond status payload contentType w).conns i) ∧
      ((P.respond status payload contentType w).conns i).state = .responded := by
  unfold Port.respond
  split
  · rename_i hst
    rw [h.get] at hst
    exact ⟨.refl _, hst⟩
  · obtain ⟨hi₁, hu₁⟩ := h.modify_unread (w := w) (f := fun c => { c with
      state := .responded
      idleTimer := none }) hi { HttpConnection.Unread.refl _ with
        answered := fun _ => rfl
        state := .inr rfl }
    have hA₁ : A (P.modify (fun c => { c with state := .responded, idleTimer := none }) w).uploads := by
      rw [Port.modify, h.set]
      exact hA
    have hu₂ := h.transmit_unread hA₁ hg hi₁ status payload contentType
    refine ⟨hu₁.trans hu₂, hu₂.answered ?_⟩
    rw [h.conns_modify]

theorem fail_acts (h : PortOf g A P i) (w : World) (hA : A w.uploads) {status : Nat}
    (hs : status / 100 ≠ 2) : Acts g w (P.respond status [] jsonType w) :=
  h.respond_acts hA (.of_failure hs)

end PortOf

/-! ## A parked connection -/

theorem setState_acts (w : World) (state : TransferState) (error : QString) :
    Acts g w (w.setState state error) := .single (.transfer (TransferModel.alike_setState _ _ _))

theorem onPendingClosed_acts (hst : (w.conns i).state = .responded) :
    Acts g w (w.onPendingClosed i) := by
  unfold onPendingClosed
  split
  · exact .refl
  · rename_i hp
    have hp : w.pending = some i := not_not.1 hp
    have hrelease : Acts g w w.releasePending := by
      refine .single (.release fun j hj => .inl ?_)
      obtain rfl : i = j := Option.some.inj (hp.symm.trans hj)
      exact hst
    have haside : Acts g w { w with
        pending := none
        acceptTimer := false } := hrelease.tail (.aside ..)
    extract_lets v
    split
    · exact haside.trans (setState_acts _ _ _)
    · exact haside

/-- A parked connection has no upload. -/
theorem parkedPort_of (i : ConnId) : PortOf g (fun t => t.lookup i = none) (parkedPort i) i where
  get _ := rfl
  set _ _ := rfl
  closed v c hA hst hc := by
    have hset : Acts g v (v.setConn i c) := setConn_acts hc fun hne => absurd hA hne
    refine hset.trans (onPendingClosed_acts ?_)
    rw [conns_setConn]
    exact hc.answered hst

/-- The parked request is answered with a failure, and let go. -/
theorem turnAway_acts (hp : w.pending = some i) (hu : w.uploads.lookup i = none) {status : Nat}
    (hs : status / 100 ≠ 2) :
    Acts g w ((parkedPort i).respond status [] jsonType w).releasePending :=
  ((parkedPort_of i).fail_acts w hu hs).tail (.release fun j hj =>
    .inl ((parted_respond w i status [] jsonType).answered hp j hj))

/-- While somebody waits for an answer nothing is on the table. -/
theorem Inv.none_on_table (h : w.Inv) (hp : w.pending = some i) (j : ConnId) :
    w.uploads.lookup j = none := by
  refine h.no_uploads ?_ j
  rcases h.exclusive with he | he
  · cases he.symm.trans hp
  · exact he

/-! ## The end of a session -/

theorem cutOff_acts (w : World) (j : ConnId) : Acts g w (w.cutOff j) := by
  unfold cutOff
  extract_lets row w₁ w₂
  rcases hu : w.uploads.lookup j with - | u
  · have h₁ : w₁ = w := closeUpload_none hu false
    have h₂ : w₂ = w := by simp only [w₂, row, hu, Option.map_none, h₁]
    rw [h₂]
    exact (parkedPort_of j).fail_acts w hu (by decide)
  · have h₂ : w₂ = w.dropUpload j u (str "Transfer stopped") := by
      simp only [w₂, w₁, row, hu, Option.map_some]
      unfold closeUpload dropUpload
      rw [hu]
      rfl
    rw [h₂]
    obtain ⟨d, hd⟩ := dropUpload_eq j u (str "Transfer stopped") w
    unfold Port.respond
    split
    · rename_i hst
      have hst' : (w.conns j).state = .responded := by
        rw [hd] at hst
        exact hst
      have hdrop := Act.drop (g := g) (str "Transfer stopped") hu (.refl _) hst'
      refine .single ?_
      have hsame : (w.dropUpload j u (str "Transfer stopped")).setConn j (w.conns j) =
          w.dropUpload j u (str "Transfer stopped") := by
        rw [hd, setConn, Function.update_eq_self]
      rwa [hsame] at hdrop
    · have hconn : (w.dropUpload j u (str "Transfer stopped")).conns j = w.conns j := by rw [hd]
      have hdrop := Act.drop (g := g) (str "Transfer stopped") hu
        (c := { w.conns j with state := .responded, idleTimer := none })
        (.of_responded { HttpConnection.Idle.refl _ with } rfl) rfl
      refine (Relation.ReflTransGen.single ?_).trans
        ((parkedPort_of j).transmit_acts ?_ (.of_failure (by decide)))
      · rw [← hconn] at hdrop
        exact hdrop
      · rw [hd]
        exact AList.lookup_erase j w.uploads

theorem skipRow_acts (w : World) (row : Nat) : Acts g w (w.skipRow row) := by
  unfold skipRow
  split
  · rename_i hst
    refine .single (.mark ?_ FileStatus.noConfusion)
    rcases hst with h | h <;> rw [h] <;> exact FileStatus.noConfusion
  · exact .refl

theorem setOutcome_acts (w : World) (status : QString) : Acts g w (w.setOutcome status) := by
  unfold setOutcome
  extract_lets done total
  split
  · exact setState_acts _ _ _
  · split
    · exact setState_acts _ _ _
    · split <;> exact setState_acts _ _ _

theorem cutOffs_acts : ∀ (keys : List ConnId) (w : World), Acts g w (keys.foldl cutOff w)
  | [], _ => .refl
  | k :: keys, w => (cutOff_acts w k).trans (cutOffs_acts keys (w.cutOff k))

theorem skipRows_acts : ∀ (rows : List Nat) (w : World), Acts g w (rows.foldl skipRow w) ∧
    (rows.foldl skipRow w).sessionId = w.sessionId ∧ (rows.foldl skipRow w).uploads = w.uploads
  | [], _ => ⟨.refl, rfl, rfl⟩
  | row :: rows, w => by
    have hframe : (w.skipRow row).sessionId = w.sessionId ∧ (w.skipRow row).uploads = w.uploads := by
      unfold skipRow
      split <;> exact ⟨rfl, rfl⟩
    obtain ⟨h1, h2, h3⟩ := skipRows_acts rows (w.skipRow row)
    exact ⟨(skipRow_acts w row).trans h1, h2.trans hframe.1, h3.trans hframe.2⟩

theorem rememberPeer_frame (w : World) :
    w.rememberPeer.sessionId = w.sessionId ∧ w.rememberPeer.uploads = w.uploads := by
  unfold rememberPeer
  split <;> exact ⟨rfl, rfl⟩

theorem settleSession_acts (status : QString) (hs : w.sessionId ≠ []) (hu : w.uploads = ∅) :
    Acts g w (w.settleSession status) := by
  unfold settleSession
  extract_lets w₁ w₂ w₃ w₄ destination
  obtain ⟨h₁, hs₁, hu₁⟩ : Acts g w w₁ ∧ w₁.sessionId = w.sessionId ∧ w₁.uploads = w.uploads :=
    skipRows_acts _ w
  have h₂ : Acts g w₁ w₂ := setOutcome_acts w₁ status
  obtain ⟨t, ht⟩ : ∃ t, w₂ = { w₁ with transfer := t } := setOutcome_frame w₁ status
  have hs₂ : w₂.sessionId = w.sessionId := by rw [ht]; exact hs₁
  have hu₂ : w₂.uploads = w.uploads := by rw [ht]; exact hu₁
  obtain ⟨hs₃, hu₃⟩ : w₃.sessionId = w₂.sessionId ∧ w₃.uploads = w₂.uploads :=
    rememberPeer_frame w₂
  have h₃ : Acts g w₂ w₃ := .single (.remember (by rwa [hs₂]))
  obtain ⟨hs₄, hu₄⟩ : w₄.sessionId = w₃.sessionId ∧ w₄.uploads = w₃.uploads :=
    writeHistory_frame w₃
  have h₄ : Acts g w₃ w₄ := .single (.record (by rwa [hs₃, hs₂]))
  have h₅ : Act g w₄ (w₄.closeSession.emit
      (.transferFinished w₄.transfer.stateName w₄.transfer.completedCount destination)) :=
    .finish destination (by rwa [hs₄, hs₃, hs₂]) (by rw [hu₄, hu₃, hu₂, hu])
  exact ((((h₁.trans h₂).trans h₃).trans h₄).tail h₅)

theorem finishSession_acts (status : QString) (w : World) :
    Acts g w (w.finishSession status) := by
  unfold finishSession
  extract_lets hadSession w₁ w₂ w₃
  split
  · exact .refl
  · have h₁ : Acts g w w₁ := .single (.aside ..)
    have h₂ : Acts g w₁ w₂ := cutOffs_acts w₁.uploads.keys w₁
    have hs₂ : w₂.sessionId = w.sessionId := (cutOffs_frame _ w₁).1
    have hu₂ : w₂.uploads = ∅ := cutOffs_uploads w₁
    obtain ⟨h₃, hs₃, hu₃⟩ : Acts g w₂ w₃ ∧ w₃.sessionId = w₂.sessionId ∧
        w₃.uploads = w₂.uploads := by
      simp only [w₃]
      split
      · rename_i i hp
        obtain ⟨hs, hu⟩ := (parted_respond w₂ i 403 [] jsonType).frame
        have hnone : w₂.uploads.lookup i = none := by
          rw [hu₂]
          exact AList.lookup_empty i
        exact ⟨turnAway_acts hp hnone (by decide), hs, hu⟩
      · exact ⟨.refl, rfl, rfl⟩
    have h := (h₁.trans h₂).trans h₃
    split
    · exact h.trans (setState_acts w₃ .cancelled [])
    · rename_i hhad
      refine h.trans (settleSession_acts status ?_ (hu₃.trans hu₂))
      rw [hs₃, hs₂]
      exact not_not.1 hhad

/-- The connection `i` closes, and its upload with it. -/
theorem onUploadClosed_acts {c : HttpConnection} (hst : (w.conns i).state = .responded)
    (hc : (w.conns i).Idle c) : Acts g w ((w.setConn i c).onUploadClosed i) := by
  unfold onUploadClosed
  rcases hu : w.uploads.lookup i with - | u
  · rw [show (w.setConn i c).uploads.lookup i = none from hu]
    exact setConn_acts hc fun hne => absurd hu hne
  · rw [show (w.setConn i c).uploads.lookup i = some u from hu]
    have hdrop : Act g w ((w.setConn i c).dropUpload i u (str "The sender disconnected")) := by
      rw [dropUpload_setConn]
      exact .drop _ hu hc (hc.answered hst)
    simp only
    split
    · exact (Relation.ReflTransGen.single hdrop).trans (finishSession_acts _ _)
    · exact .single hdrop

theorem port_of (i : ConnId) : PortOf g (fun _ => True) (port i) i where
  get _ := rfl
  set _ _ := rfl
  closed v c _ hst hc := by
    have hparked := onPendingClosed_acts (g := g) hst
    change Acts g v (onUploadClosed i (onPendingClosed i (v.setConn i c)))
    rw [onPendingClosed_setConn]
    refine hparked.trans (onUploadClosed_acts ?_ ?_) <;> rw [conns_onPendingClosed]
    · exact hst
    · exact hc

/-- An answer of the service that is not a success. -/
theorem respond_acts (w : World) (i : ConnId) {status : Nat} (hs : status / 100 ≠ 2) :
    Acts g w (w.respond i status) := (port_of i).fail_acts w trivial hs

/-! ## The parked request -/

/-- The session is opened and its id and tokens are sent. -/
theorem openSession_acts (h : w.Inv) (hp : w.pending = some i) (directory : QString) :
    Acts g w (World.emit .started { ((parkedPort i).respondJson 200
      (w.openSession i directory).acceptResponse (w.openSession i directory)).releasePending with
        acceptTimer := false }) := by
  set w₁ := w.openSession i directory with hw₁
  obtain ⟨a, ha⟩ := h.recalls (.inl (by rw [hp]; exact Option.some_ne_none i))
  obtain ⟨h2, h3⟩ := ha.pending i hp
  obtain ⟨-, hhead, -, hpath⟩ := h.parked i hp
  have hconns : w₁.conns = w.conns := by
    obtain ⟨id, d, t, tokens, heq, -⟩ := openSession_eq w i directory
    rw [hw₁, heq]
  have hissued : Log.Issued (w₁.log ++ [.started]) w₁.sessionId w₁.tokens i := by
    obtain ⟨id, d, t, tokens, heq, -⟩ := openSession_eq w i directory
    refine ⟨w.log, (w.conns i).peerAddress, [.started], a, ?_, ha.asked, h2.symm⟩
    rw [hw₁, heq]
    exact List.append_assoc _ _ _
  -- the connection is marked as answered first, then the session is there to be told of
  obtain ⟨c₀, hc₀⟩ : ∃ c₀ : HttpConnection, c₀ = { w.conns i with state := .responded } :=
    ⟨_, rfl⟩
  have hmark : Acts g w (w.setConn i c₀) := by
    rw [hc₀]
    exact setConn_acts (.of_responded { HttpConnection.Idle.refl _ with } rfl) fun _ => rfl
  have hnone : w₁.uploads.lookup i = none := by
    obtain ⟨id, d, t, tokens, heq, -⟩ := openSession_eq w i directory
    rw [hw₁, heq]
    exact h.none_on_table hp i
  have hopen : Act g (w.setConn i c₀) ((w₁.setConn i c₀).emit .started).releasePending := by
    have hact : Act g (w.setConn i c₀)
        (((w.setConn i c₀).openSession i directory).emit .started).releasePending :=
      .openSession hp (by rw [conns_setConn, hc₀])
    rwa [openSession_setConn (by rw [hc₀])] at hact
  obtain ⟨c, hst, hc, hv⟩ := parted_respond w₁ i 200 (Qt.toJson w₁.acceptResponse) jsonType
  have hreply : Acts g ((w₁.setConn i c₀).emit .started).releasePending
      ((w₁.setConn i c).emit .started).releasePending := by
    have hget : (((w₁.setConn i c₀).emit .started).releasePending).conns i = c₀ := conns_setConn ..
    have hset : (((w₁.setConn i c₀).emit .started).releasePending).setConn i c =
        ((w₁.setConn i c).emit .started).releasePending := by
      simp only [setConn, emit, releasePending, Function.update_idem]
    rw [← hset]
    rw [hconns] at hc
    rcases hc with hc | hc
    · refine setConn_acts ?_ fun hne => absurd hnone hne
      rw [hget, hc₀]
      exact hc.mark_first hst hhead
    · refine .single (.reply (r := ⟨200, jsonType, (w.conns i).extraHeaders,
        Qt.toJson w₁.acceptResponse⟩) ?_ ⟨?_, ?_, ?_⟩ ?_ fun hne => absurd hnone hne)
      · rw [hget, hc₀]
        exact State.noConfusion
      · intro hup
        rw [hget, hc₀] at hup
        exact absurd (hpath.symm.trans hup) (by decide)
      · exact fun _ _ => ⟨rfl, hissued⟩
      · rw [hget, hc₀]
        refine .inr fun hnil => ?_
        exact absurd (hpath.symm.trans hnil) (by decide)
      · rw [hget, hc₀]
        exact hc.mark_first hst hhead
  refine ((hmark.tail hopen).trans hreply).trans ?_
  rcases hv with hv | hv
  · rw [Port.respondJson, hv]
    exact .single (.aside ..)
  · obtain ⟨p, timer, t, heq, ht, -⟩ := onPendingClosed_eq i w₁
    rw [Port.respondJson, hv, heq]
    exact .trans (.single (.transfer ht)) (.single (.aside ..))

theorem accept_acts (h : w.Inv) : Acts g w w.accept := by
  unfold accept
  rcases hp : w.pending with - | i
  · exact .refl
  · obtain ⟨directory, d, heq⟩ := prepareDirectory_eq w
    simp only [heq]
    have h₀ : Acts g w { w with disk := d } :=
      .single (.probe (by rw [hp]; exact Option.some_ne_none i) (by rw [heq]))
    split
    · have h₁ : Acts g { w with disk := d } ((parkedPort i).respond 500 [] jsonType
          { w with disk := d }).releasePending :=
        turnAway_acts (w := { w with disk := d }) hp (h.none_on_table hp i) (by decide)
      exact ((h₀.trans h₁).tail (.aside ..)).trans (setState_acts _ _ _)
    · have h₁ := openSession_acts (g := g) (h₀.inv h) hp directory
      have rest : ∀ v : World, Acts g (v.emit .started) (World.emit .started
          { ({ v with transfer := v.transfer.setDestination v.sessionDirectory }).setState
            .active [] with idleTimer := true }) := by
        intro v
        refine .trans (.single (.transfer
          (TransferModel.alike_setDestination v.transfer v.sessionDirectory))) ?_
        exact (setState_acts _ .active []).tail (.aside ..)
      exact (h₀.trans h₁).trans (rest _)

theorem decline_acts (h : w.Inv) : Acts g w w.decline := by
  unfold decline
  rcases hp : w.pending with - | i
  · exact .refl
  · exact ((turnAway_acts hp (h.none_on_table hp i) (by decide)).tail (.aside ..)).trans (setState_acts _ _ _)

theorem onAcceptTimeout_acts (h : w.Inv) : Acts g w w.onAcceptTimeout := by
  unfold onAcceptTimeout
  rcases hp : w.pending with - | i
  · exact .refl
  · exact (turnAway_acts hp (h.none_on_table hp i) (by decide)).trans (setState_acts _ _ _)

/-! ## Requests -/

/-- A request that is neither an upload nor a prepare-upload may be answered. -/
theorem MayAnswer.of_path {r : Response} (hst : (w.conns i).state ≠ .readingHeaders)
    (hup : (w.conns i).path ≠ endpoint Protocol.PathUpload)
    (hprep : (w.conns i).path ≠ endpoint Protocol.PathPrepareUpload) (hne : (w.conns i).path ≠ []) :
    w.MayAnswer i r :=
  fun _ => ⟨hst, fun h => absurd h hup, fun h => absurd h hprep, .inr hne⟩

theorem registerPeer_acts (payload : QJsonObject) (address : QString) (w : World) :
    Acts g w (w.registerPeer payload address).2 := by
  unfold registerPeer
  extract_lets peer
  split
  · exact .single (.aside ..)
  · exact .refl

theorem registerPeer_eq (payload : QJsonObject) (address : QString) (w : World) :
    ∃ devices, (w.registerPeer payload address).2 = { w with devices := devices } := by
  unfold registerPeer
  extract_lets peer
  split
  · exact ⟨_, rfl⟩
  · exact ⟨w.devices, rfl⟩

/-- What becomes of a prepare-upload: it is refused, where wrong PINs may have been counted and a
header set, or it becomes the transfer. -/
inductive Prepares (i : ConnId) (w : World) : World → Prop
  | refused (limiter : RateLimiter) (headers : List (QByteArray × QByteArray)) {status : Nat} :
      status = 204 ∨ 400 ≤ status → Prepares i w (World.respond i status { w.setConn i {
        w.conns i with extraHeaders := headers } with pinAttempts := limiter })
  | accepted (limiter : RateLimiter) (devices : DeviceModel) :
      ((w.conns i).path = endpoint Protocol.PathPrepareUpload → w.Takes i) →
      w.settings.quickSave = true →
      Prepares i w (World.accept (park i { w with pinAttempts := limiter, devices := devices }))
  | prompted (limiter : RateLimiter) (devices : DeviceModel) :
      ((w.conns i).path = endpoint Protocol.PathPrepareUpload → w.Takes i) →
      w.settings.quickSave = false →
      Prepares i w (World.raisePrompt (park i { w with pinAttempts := limiter, devices := devices }))

omit [Qt] in
theorem counted_eq (w : World) (i : ConnId) (limiter : RateLimiter) :
    { w with pinAttempts := limiter } = { w.setConn i { w.conns i with
      extraHeaders := (w.conns i).extraHeaders } with pinAttempts := limiter } := by
  unfold setConn
  rw [Function.update_eq_self]

theorem handlePrepareUpload_prepares (w : World) (i : ConnId) :
    Prepares i w (w.handlePrepareUpload i) := by
  have plain : ∀ {status : Nat} (limiter : RateLimiter), status = 204 ∨ 400 ≤ status →
      Prepares i w (World.respond i status { w with pinAttempts := limiter }) := by
    intro status limiter hs
    rw [counted_eq w i limiter]
    exact .refused limiter _ hs
  unfold handlePrepareUpload
  extract_lets address w₁ w₂ info files peer w₃ w₄
  refine iteInduction (fun _ => plain w.pinAttempts (.inr (by decide))) fun henabled => ?_
  refine iteInduction (fun _ => plain w.pinAttempts (.inr (by decide))) fun hidle => ?_
  refine iteInduction (fun _ => .refused w.pinAttempts _ (.inr (by decide))) fun hallowed => ?_
  refine iteInduction (fun _ => plain _ (.inr (by decide))) fun hpin => ?_
  refine iteInduction (fun _ => plain _ (.inr (by decide))) fun hinfo => ?_
  refine iteInduction (fun _ => plain _ (.inl rfl)) fun hfiles => ?_
  refine iteInduction (fun _ => plain _ (.inr (by decide))) fun hcount => ?_
  refine iteInduction (fun _ => plain _ (.inr (by decide))) fun hverified => ?_
  refine iteInduction (fun _ => plain _ (.inr (by decide))) fun hblocked => ?_
  have htakes : (w.conns i).path = endpoint Protocol.PathPrepareUpload → w.Takes i := fun hpath =>
    { path := hpath
      enabled := not_not.1 henabled
      idle := hidle
      allowed := not_not.1 hallowed
      pin := not_not.1 hpin
      info := hinfo
      files := hfiles
      count := Nat.le_of_not_lt hcount
      verified := not_not.1 hverified
      unblocked := Bool.eq_false_iff.2 hblocked }
  obtain ⟨devices, hdevices⟩ := registerPeer_eq info address w₂
  have hw₃ : w₃ = { w₂ with devices := devices } := hdevices
  clear_value w₃
  subst hw₃
  refine iteInduction (fun hquick => ?_) fun hquick => ?_
  · exact .accepted _ devices htakes hquick
  · exact .prompted _ devices htakes (Bool.eq_false_iff.2 hquick)

theorem handlePrepareUpload_acts (h : w.Inv) (hi : i < w.nextConn)
    (hst : (w.conns i).state = .readingBody) (hc : (w.conns i).bodyComplete = true)
    (hpath : (w.conns i).path = endpoint Protocol.PathPrepareUpload) (hg : Promises g w i) :
    Acts g w (w.handlePrepareUpload i) := by
  have hparks : ∀ limiter devices, w.Takes i →
      Acts g w (park i { w with pinAttempts := limiter, devices := devices }) := by
    intro limiter devices htakes
    refine .head (.aside devices w.acceptTimer w.idleTimer limiter) (.single ?_)
    exact .park htakes.idle hi hst hc hpath htakes.verified (hg.park htakes)
  have hprepares := handlePrepareUpload_prepares w i
  generalize w.handlePrepareUpload i = v at hprepares
  cases hprepares with
  | @refused limiter headers status hs =>
    have hcounted : Acts g w { w.setConn i { w.conns i with extraHeaders := headers } with
        pinAttempts := limiter } :=
      (setConn_acts (c := { w.conns i with extraHeaders := headers })
        { HttpConnection.Idle.refl _ with } fun _ => rfl).tail (.aside ..)
    have hget : ({ w.setConn i { w.conns i with extraHeaders := headers } with
        pinAttempts := limiter } : World).conns i = { w.conns i with extraHeaders := headers } :=
      conns_setConn _ _ _
    refine hcounted.trans ((port_of i).respond_acts trivial fun _ =>
      ⟨?_, fun hup => ?_, fun _ h200 => ?_, .inr fun hnil => ?_⟩)
    · rw [hget, hst]
      exact State.noConfusion
    · rw [hget] at hup
      exact absurd (hpath.symm.trans hup) (by decide)
    · have hstatus : status = 200 := h200
      omega
    · rw [hget] at hnil
      exact absurd (hpath.symm.trans hnil) (by decide)
  | accepted limiter devices htakes =>
    have hpark := hparks limiter devices (htakes hpath)
    exact hpark.trans (accept_acts (hpark.inv h))
  | prompted limiter devices htakes =>
    exact (hparks limiter devices (htakes hpath)).tail (.prompt (Option.some_ne_none i))

/-! ## Uploads -/

theorem onBodyProgress_acts (w : World) : Acts g w (w.onBodyProgress i) := by
  unfold onBodyProgress
  rcases w.uploads.lookup i with - | u
  · exact .refl
  · exact .trans (.single (.transfer (TransferModel.alike_setFileTransferred _ _ _)))
      (.single (.aside ..))

/-- The end of an upload is answered with success exactly when its row is done. -/
theorem settleUpload_mayAnswer (h : w.Inv) {u : Upload} (hu : w.uploads.lookup i = some u)
    {payload contentType : QByteArray} {headers : List (QByteArray × QByteArray)} :
    (settleUpload i u { w with uploads := w.uploads.erase i }).2.MayAnswer i
      ⟨(settleUpload i u { w with uploads := w.uploads.erase i }).1, contentType, headers,
        payload⟩ := by
  have hs := h.served i u hu
  obtain ⟨f, hf, hp, -⟩ := hs.handle
  have hrow := TransferModel.entry_of_indexOfFile hs.found
  obtain ⟨d, ⟨status, error, hfail, heq⟩ | ⟨path, content, -, -, -, -, heq⟩⟩ :=
    settleUpload_spec (w := { w with uploads := w.uploads.erase i }) i (hs.file.symm ▸ hf) hp
  · rw [heq]
    exact .of_failure hfail
  · rw [heq]
    refine fun _ => ⟨hs.head, fun _ _ => ⟨hs.open_, hs.session, u.row, ?_, ?_⟩, fun hprep => ?_,
      .inr fun hnil => ?_⟩
    · refine (TransferModel.indexOfFile_congr ?_ _).trans hs.found
      exact (TransferModel.declared_setFileStatus _ _ _ _).trans
        (TransferModel.alike_setFileLocalPath _ _ _).declared
    · have hlt : u.row < (w.transfer.setFileLocalPath u.row path).fileCount := by
        rw [TransferModel.fileCount_congr (TransferModel.alike_setFileLocalPath _ _ _).declared]
        exact hrow.1
      exact (TransferModel.status_setFileStatus _ _ _ _ _).trans (if_pos ⟨rfl, hlt⟩)
    · exact absurd (hs.path.symm.trans hprep) (by decide)
    · exact absurd (hs.path.symm.trans hnil) (by decide)

/-- What follows the answer of an upload. -/
theorem concludeUpload_acts (v : World) : Acts g v (if v.transfer.settled then
    finishSession (if v.transfer.failedCount > 0 then str "failed" else str "finished")
      { v with idleTimer := true }
    else { v with idleTimer := true }) := by
  have hidle : Acts g v { v with idleTimer := true } := .single (.aside ..)
  split
  · exact hidle.trans (finishSession_acts _ _)
  · exact hidle

/-- What follows the end of an upload. -/
theorem settledUpload_acts (h : w.Inv) {u : Upload} (hu : w.uploads.lookup i = some u) :
    Acts g (settleUpload i u { w with uploads := w.uploads.erase i }).2
      (w.handleUploadFinished i) := by
  unfold handleUploadFinished
  rw [hu]
  have hrespond : Acts g (settleUpload i u { w with uploads := w.uploads.erase i }).2
      (World.respond i (settleUpload i u { w with uploads := w.uploads.erase i }).1
        (settleUpload i u { w with uploads := w.uploads.erase i }).2) :=
    (port_of i).respond_acts trivial (settleUpload_mayAnswer h hu)
  exact hrespond.trans (concludeUpload_acts _)

theorem handleUploadFinished_acts (h : w.Inv) (hst : (w.conns i).state = .readingBody)
    (hc : (w.conns i).bodyComplete = true) (hg : Promises g w i) :
    Acts g w (w.handleUploadFinished i) := by
  rcases hu : w.uploads.lookup i with - | u
  · unfold handleUploadFinished
    rw [hu]
    simp only
    split
    · exact .refl
    · exact respond_acts w i (by decide)
  · exact .head (.settle hu hst hc (hg.finish u hu)) (settledUpload_acts h hu)

/-! ## Cancel -/

/-- Where no prepare-upload is taken, a request stays parked or is let go, and a session is opened
for a parked one only. -/
theorem Act.engaged {v : World} (ha : Act g w v) (hg : ∀ c, ¬ g.park c) :
    (v.pending = w.pending ∨ v.pending = none) ∧
      (v.sessionId = w.sessionId ∨ v.sessionId = [] ∨ w.pending ≠ none) := by
  cases ha with
  | park _ _ _ _ _ _ h => exact absurd h (hg _)
  | openSession hp => exact ⟨.inr rfl, .inr (.inr (by rw [hp]; exact Option.some_ne_none _))⟩
  | release => exact ⟨.inr rfl, .inl rfl⟩
  | wrote =>
    unfold World.write
    split <;> exact ⟨.inl rfl, .inl rfl⟩
  | short =>
    unfold World.write
    split <;> exact ⟨.inl rfl, .inl rfl⟩
  | @enter i row path =>
    obtain ⟨d, hd⟩ := entered_eq w i row path { w.conns i with
      sink := some i
      maxBodyBytes := (w.transfer.entry row).size }
    rw [hd]
    exact ⟨.inl rfl, .inl rfl⟩
  | @drop i u c error =>
    obtain ⟨d, hd⟩ := dropUpload_eq i u error w
    rw [hd]
    exact ⟨.inl rfl, .inl rfl⟩
  | @settle i u =>
    obtain ⟨d, t, log, heq⟩ := settleUpload_eq i u { w with uploads := w.uploads.erase i }
    rw [heq]
    exact ⟨.inl rfl, .inl rfl⟩
  | remember =>
    unfold rememberPeer
    split <;> exact ⟨.inl rfl, .inl rfl⟩
  | record =>
    unfold writeHistory
    split <;> exact ⟨.inl rfl, .inl rfl⟩
  | finish => exact ⟨.inl rfl, .inr (.inl rfl)⟩
  | _ => exact ⟨.inl rfl, .inl rfl⟩

theorem Acts.pending {v : World} (ha : Acts g w v) (hg : ∀ c, ¬ g.park c) :
    v.pending = w.pending ∨ v.pending = none := by
  induction ha with
  | refl => exact .inl rfl
  | tail _ ha ih =>
    rcases (ha.engaged hg).1 with h | h
    · rw [h]
      exact ih
    · exact .inr h

/-- What follows the answer of a `/cancel`. -/
theorem concludeCancel_acts (sessionId : QString) (v : World) (hg : v.pending ≠ none → g.forget) :
    Acts g v (if v.pending ≠ none ∧ v.sessionId = [] then
        { v.releasePending with acceptTimer := false }.setState .cancelled []
      else if v.sessionId ≠ [] ∧ (sessionId = [] ∨ sessionId = v.sessionId) then
        v.finishSession (str "cancelled")
      else v) := by
  split
  · rename_i hp
    refine .trans (.trans (.single (.release fun _ _ => .inr (hg hp.1))) ?_) (setState_acts _ _ _)
    exact .single (.aside ..)
  split
  · exact finishSession_acts _ _
  · exact .refl

theorem handleCancel_acts (h : w.Inv) (hst : (w.conns i).state ≠ .readingHeaders)
    (hpath : (w.conns i).path = endpoint Protocol.PathCancel) (hg : Promises g w i) :
    Acts g w (w.handleCancel i) := by
  have hanswer : ∀ {r : Response}, w.MayAnswer i r := by
    refine .of_path hst ?_ ?_ ?_ <;> rw [hpath] <;> decide
  have hrespond : Acts g w (w.respond i 200) := (port_of i).respond_acts trivial hanswer
  have hpending : (w.respond i 200).pending ≠ none → g.forget := by
    intro hne
    have hkept : Acts (.reading i) w (w.respond i 200) := (port_of i).respond_acts trivial hanswer
    rcases hkept.pending (fun _ => id) with hp | hp
    · rw [hp] at hne
      exact hg.forget hpath hne (h.exclusive.resolve_left hne)
    · exact absurd hp hne
  exact hrespond.trans (concludeCancel_acts _ _ hpending)

theorem cancel_acts (h : w.Inv) : Acts g w w.cancel := by
  unfold cancel
  split
  · exact decline_acts h
  split
  · exact .refl
  have hnotify : Acts g w w.notifyPeerCancelled := by
    unfold notifyPeerCancelled
    split
    · exact .refl
    · exact .single (.posted _ _)
  exact hnotify.trans (finishSession_acts _ _)

theorem onSessionIdle_acts (w : World) : Acts g w w.onSessionIdle := by
  unfold onSessionIdle
  split
  · exact .refl
  · exact finishSession_acts _ _

/-! ## Routing -/

theorem onRequestReady_acts (h : w.Inv) (hi : i < w.nextConn)
    (hst : (w.conns i).state = .readingBody) (hc : (w.conns i).bodyComplete = true)
    (hg : Promises g w i) : Acts g w (w.onRequestReady i) := by
  have hhead : (w.conns i).state ≠ .readingHeaders := by
    rw [hst]
    exact State.noConfusion
  unfold onRequestReady
  extract_lets path
  split
  · rename_i hpath
    refine (port_of i).respond_acts trivial (.of_path hhead ?_ ?_ ?_)
    all_goals
      intro hp
      rw [show path = _ from hp] at hpath
      exact absurd hpath (by decide)
  split
  · rename_i hpath
    have hw := registerPeer_acts (g := g) (w.conns i).jsonBody (w.conns i).peerAddress w
    obtain ⟨devices, hdev⟩ := registerPeer_eq (w.conns i).jsonBody (w.conns i).peerAddress w
    refine hw.trans ((port_of i).respond_acts trivial (.of_path ?_ ?_ ?_ ?_))
    all_goals
      rw [hdev]
    · exact hhead
    all_goals
      intro hp
      rw [show path = _ from hp] at hpath
      exact absurd hpath (by decide)
  split
  · rename_i hpath
    exact handlePrepareUpload_acts h hi hst hc hpath hg
  split
  · exact handleUploadFinished_acts h hst hc hg
  split
  · rename_i hpath
    exact handleCancel_acts h hhead hpath hg
  · exact respond_acts w i (by decide)

/-! ## Listening -/

theorem startListening_acts (hg : g.outside) (w : World) : Acts g w w.startListening := by
  unfold startListening
  split
  · exact .refl
  · extract_lets server port
    split <;> exact .single (.outside hg le_rfl (.inl rfl) ..)

theorem stopListening_acts (hg : g.outside) (w : World) : Acts g w w.stopListening := by
  unfold stopListening
  split
  · exact .refl
  · exact (finishSession_acts _ w).tail (.outside hg le_rfl (.inl rfl) ..)

theorem onSettingsChanged_acts (hg : g.outside) (w : World) : Acts g w w.onSettingsChanged := by
  unfold onSettingsChanged
  split
  · exact .refl
  · exact (stopListening_acts hg w).trans (startListening_acts hg _)

theorem setPort_acts (hg : g.outside) (port : Int) (w : World) : Acts g w (w.setPort port) := by
  unfold World.setPort
  split
  · exact .refl
  · exact .head (.outside hg le_rfl (.inl rfl) ..) (onSettingsChanged_acts hg _)

theorem setReceiveEnabled_acts (hg : g.outside) (enabled : Bool) (w : World) :
    Acts g w (w.setReceiveEnabled enabled) := by
  unfold World.setReceiveEnabled
  split
  · exact .refl
  · rename_i settings _
    have h₁ : Acts g w { w with settings := settings } := .single (.outside hg le_rfl (.inl rfl) ..)
    extract_lets w₁
    split
    · exact h₁.trans ((startListening_acts hg w₁).tail (.outside hg le_rfl (.inl rfl) ..))
    · exact h₁.trans ((stopListening_acts hg w₁).tail (.outside hg le_rfl (.inl rfl) ..))

end World

end LocalSend
