import LocalSend.Receive.Proof.Steady

/-!
# Nobody is kept waiting

A request that is pending has the timer of its prompt running, an open session the one that watches
for silence, and without either the transfer is over (`Timed`). So whatever a peer does, once these
two timers have fired the service is free again: no request, no session, no upload and no file that
is still open (`frees_up`).
-/

set_option autoImplicit false

namespace LocalSend.World

section
variable [Qt] {g : Guard} {w v : World} {i : ConnId}

/-- What is waited for has its timer. -/
structure Timed (w : World) : Prop where
  source : Crypto.Working w.random
  pending : w.pending ≠ none → w.acceptTimer = true
  session : w.sessionId ≠ [] → w.idleTimer = true
  idle : w.pending = none → w.sessionId = [] → w.transfer.active = false

/-- As `Timed`, of a world in which the prompt may not be up yet. -/
structure Ticks (w : World) : Prop where
  source : Crypto.Working w.random
  session : w.sessionId ≠ [] → w.idleTimer = true
  idle : w.pending = none → w.sessionId = [] → w.transfer.active = false

section
omit [Qt]

theorem Timed.ticks (h : w.Timed) : w.Ticks := ⟨h.source, h.session, h.idle⟩

theorem Ticks.timed (h : w.Ticks) (hp : w.pending = none) : w.Timed :=
  ⟨h.source, fun hne => absurd hp hne, h.session, h.idle⟩

theorem Ticks.congr (h : w.Ticks) (hr : v.random = w.random) (hp : v.pending = w.pending)
    (hs : v.sessionId = w.sessionId) (hi : v.idleTimer = w.idleTimer)
    (ht : v.transfer.state = w.transfer.state) : v.Ticks where
  source := hr ▸ h.source
  session hne := by
    rw [hs] at hne
    rw [hi]
    exact h.session hne
  idle hnone hnil := by
    rw [hp] at hnone
    rw [hs] at hnil
    have hidle := h.idle hnone hnil
    unfold TransferModel.active at hidle ⊢
    rwa [ht]

theorem Timed.congr (h : w.Timed) (hr : v.random = w.random) (hp : v.pending = w.pending)
    (hs : v.sessionId = w.sessionId) (ha : v.acceptTimer = w.acceptTimer)
    (hi : v.idleTimer = w.idleTimer) (ht : v.transfer.state = w.transfer.state) : v.Timed :=
  { h.ticks.congr hr hp hs hi ht with
    pending := fun hne => by
      rw [hp] at hne
      rw [ha]
      exact h.pending hne }

/-- Nobody waits and no session is open. -/
theorem Timed.over (hr : Crypto.Working w.random) (hp : w.pending = none) (hs : w.sessionId = [])
    (ht : w.transfer.active = false) : w.Timed :=
  ⟨hr, fun hne => absurd hp hne, fun hne => absurd hs hne, fun _ _ => ht⟩

theorem active_setState (state : TransferState) (error : QString)
    (hs : state ≠ .active ∧ state ≠ .pending ∧ state ≠ .requesting) (w : World) :
    (w.setState state error).transfer.active = false := by
  unfold World.setState TransferModel.active
  rw [TransferModel.state_setState]
  simp [hs]

/-! ## Answers, and who hears of them -/

/-- The request was let go, with the transfer over unless a session is open. -/
theorem Ticks.release (h : w.Ticks) {state : TransferState}
    (hs : state ≠ .active ∧ state ≠ .pending ∧ state ≠ .requesting) (error : QString) :
    (World.setState state error { w with pending := none, acceptTimer := false }).Timed :=
  ⟨h.source, fun hne => absurd rfl hne, h.session, fun _ _ => active_setState _ _ hs _⟩

theorem Ticks.onPendingClosed (h : w.Ticks) (i : ConnId) : (w.onPendingClosed i).Ticks := by
  unfold World.onPendingClosed
  split
  · exact h
  · extract_lets u
    split
    · exact (h.release (by decide) []).ticks
    · rename_i hopen
      exact ⟨h.source, h.session, fun _ hnil => absurd hnil hopen⟩

theorem Timed.onPendingClosed (h : w.Timed) (i : ConnId) : (w.onPendingClosed i).Timed := by
  by_cases hp : w.pending = some i
  · exact (h.ticks.onPendingClosed i).timed (pending_onPendingClosed hp)
  · unfold World.onPendingClosed
    rwa [if_pos hp]

theorem parkedPort_ticks (i : ConnId) : (parkedPort i).Preserves Ticks where
  set _ _ h := h.congr rfl rfl rfl rfl rfl
  closed h := h.onPendingClosed i

/-! ## The end of a session -/

theorem active_setOutcome (status : QString) (w : World) :
    (w.setOutcome status).transfer.active = false := by
  unfold setOutcome
  extract_lets done total
  split
  · exact active_setState .cancelled _ (by decide) w
  split
  · exact active_setState .finished _ (by decide) w
  split
  · exact active_setState .failed _ (by decide) w
  · exact active_setState .failed _ (by decide) w

end

theorem settleSession_timed (hr : Crypto.Working w.random) (hp : w.pending = none)
    (status : QString) : (w.settleSession status).Timed ∧
      (w.settleSession status).pending = none ∧ (w.settleSession status).sessionId = [] := by
  unfold settleSession
  extract_lets w₁ w₂ w₃ w₄ destination
  have hr₁ : w₁.random = w.random := (foldl_steady skipRow_steady _ w).random
  have hp₁ : w₁.pending = none := (skipRows_pending _ w).trans hp
  have ha₂ : w₂.transfer.active = false := active_setOutcome status w₁
  obtain ⟨t, ht⟩ : ∃ t, w₂ = { w₁ with transfer := t } := setOutcome_frame w₁ status
  have h₂ : w₂.random = w.random ∧ w₂.pending = none := by
    rw [ht]
    exact ⟨hr₁, hp₁⟩
  have h₃ : w₃.random = w.random ∧ w₃.pending = none ∧ w₃.transfer.active = false := by
    simp only [w₃]
    unfold rememberPeer
    split <;> exact ⟨h₂.1, h₂.2, ha₂⟩
  have h₄ : w₄.random = w.random ∧ w₄.pending = none ∧ w₄.transfer.active = false := by
    simp only [w₄]
    unfold writeHistory
    split <;> exact h₃
  exact ⟨.over (h₄.1 ▸ hr) h₄.2.1 rfl h₄.2.2, h₄.2.1, rfl⟩

/-- A session that is finished is over, and nobody waits. -/
theorem finishSession_timed (hsource : Crypto.Working w.random)
    (hidle : w.pending = none → w.sessionId = [] → w.Timed) (status : QString) :
    (w.finishSession status).Timed ∧ (w.finishSession status).pending = none ∧
      (w.finishSession status).sessionId = [] := by
  unfold finishSession
  extract_lets hadSession w₁ w₂ w₃
  have hs₂ : w₂.sessionId = w.sessionId := (cutOffs_frame _ w₁).1
  have hr₂ : w₂.random = w.random := (foldl_steady cutOff_steady _ w₁).random
  obtain ⟨hp₃, hs₃, hr₃⟩ : w₃.pending = none ∧ w₃.sessionId = w.sessionId ∧
      w₃.random = w.random := by
    simp only [w₃]
    split
    · have hparted := fun i => parted_respond w₂ i 403 [] jsonType
      exact ⟨rfl, (hparted _).frame.1.trans hs₂, (hparted _).steady.random.trans hr₂⟩
    · rename_i hp
      exact ⟨hp, hs₂, hr₂⟩
  split
  · rename_i hnothing
    obtain ⟨hclosed, hp⟩ := hnothing
    exact ⟨hidle hp (not_not.1 hclosed), hp, not_not.1 hclosed⟩
  split
  · rename_i hnever
    have hclosed : w₃.sessionId = [] := hs₃.trans (not_not.1 hnever)
    exact ⟨.over (hr₃ ▸ hsource) hp₃ hclosed (active_setState _ _ (by decide) w₃), hp₃, hclosed⟩
  · exact settleSession_timed (hr₃ ▸ hsource) hp₃ status

theorem Timed.finishSession (h : w.Timed) (status : QString) : (w.finishSession status).Timed :=
  (finishSession_timed h.source (fun _ _ => h) status).1

theorem Timed.concluded (h : w.Timed) (status : QString) :
    (if w.transfer.settled then w.finishSession status else w).Timed := by
  split
  · exact h.finishSession status
  · exact h

theorem Timed.onUploadClosed (h : w.Timed) (i : ConnId) : (w.onUploadClosed i).Timed := by
  unfold World.onUploadClosed
  cases hu : w.uploads.lookup i with
  | none => exact h
  | some u =>
    obtain ⟨d, hd⟩ := dropUpload_eq i u (str "The sender disconnected") w
    have hdropped : (w.dropUpload i u (str "The sender disconnected")).Timed := by
      rw [hd]
      exact h.congr rfl rfl rfl rfl rfl (TransferModel.state_setFileStatus _ _ _ _)
    exact hdropped.concluded _

theorem port_timed (i : ConnId) : (port i).Preserves Timed where
  set _ _ h := h.congr rfl rfl rfl rfl rfl rfl
  closed h := (h.onPendingClosed i).onUploadClosed i

theorem Timed.respond (h : w.Timed) (i : ConnId) (status : Nat) : (w.respond i status).Timed :=
  (port_timed i).respond _ _ _ h

/-! ## The parked request -/

theorem Ticks.accept (h : w.Ticks) : w.accept.Timed := by
  unfold World.accept
  split
  · rename_i hp
    exact h.timed hp
  · rename_i i hp
    obtain ⟨directory, d, heq⟩ := prepareDirectory_eq w
    rw [heq]
    have hready : ({ w with disk := d } : World).Ticks := h.congr rfl rfl rfl rfl rfl
    simp only
    split
    · exact ((parkedPort_ticks i).respond 500 [] jsonType hready).release (by decide) _
    · obtain ⟨id, n, t, tokens, hopen, hid, -⟩ := openSession_eq { w with disk := d } i directory
      generalize World.openSession i directory { w with disk := d } = u at hopen
      have hparted := parted_respond u i 200 (Qt.toJson u.acceptResponse) jsonType
      unfold Port.respondJson
      generalize (parkedPort i).respond 200 (Qt.toJson u.acceptResponse) jsonType u = v at hparted
      have hr : v.random = w.random := by
        rw [hparted.steady.random, hopen]
      have hs : v.sessionId ≠ [] := by
        rw [hparted.frame.1, hopen, hid]
        exact Crypto.generateToken_ne_nil h.source _
      exact ⟨hr ▸ h.source, fun hne => absurd rfl hne, fun _ => rfl, fun _ hnil => absurd hnil hs⟩

section
omit [Qt]

theorem Ticks.refusePending (h : w.Ticks) (i : ConnId) :
    ({ w.refusePending i with acceptTimer := false }.setState .idle []).Timed :=
  ((parkedPort_ticks i).respond 403 [] jsonType h).release (by decide) []

theorem Timed.decline (h : w.Timed) : w.decline.Timed := by
  unfold World.decline
  split
  · exact h
  · exact h.ticks.refusePending _

/-- The timer of the prompt has run out. -/
theorem Ticks.onAcceptTimeout (h : w.Ticks) : w.onAcceptTimeout.Timed ∧
    w.onAcceptTimeout.pending = none := by
  unfold World.onAcceptTimeout
  split
  · rename_i hp
    exact ⟨h.timed hp, hp⟩
  · have hrefused := h.refusePending
    exact ⟨⟨(hrefused _).source, fun hne => absurd rfl hne, (hrefused _).session,
      (hrefused _).idle⟩, rfl⟩

end

theorem Timed.prepare (h : w.Timed) (i : ConnId) : (w.handlePrepareUpload i).Timed := by
  have hparks : ∀ limiter devices,
      (World.park i { w with pinAttempts := limiter, devices := devices }).Ticks := fun _ _ =>
    ⟨h.source, h.session, fun hnone _ => absurd hnone (Option.some_ne_none i)⟩
  have hprepares := handlePrepareUpload_prepares w i
  generalize w.handlePrepareUpload i = v at hprepares ⊢
  cases hprepares with
  | refused limiter headers =>
    have hcounted : ({ w.setConn i { w.conns i with extraHeaders := headers } with
        pinAttempts := limiter } : World).Timed := h.congr rfl rfl rfl rfl rfl rfl
    exact hcounted.respond i _
  | accepted limiter devices => exact (hparks limiter devices).accept
  | prompted limiter devices =>
    obtain ⟨hsource, hsession, hidle⟩ := hparks limiter devices
    exact ⟨hsource, fun _ => rfl, hsession, hidle⟩

/-! ## Uploads and what ends them -/

section
omit [Qt]

theorem Timed.write (h : w.Timed) (i : ConnId) (f : FileId) (data : QByteArray) :
    (w.write i f data).2.Timed := by
  unfold World.write
  split <;> exact h.congr rfl rfl rfl rfl rfl rfl

theorem Timed.progress (h : w.Timed) (i : ConnId) : (w.onBodyProgress i).Timed := by
  unfold World.onBodyProgress
  split
  · exact h
  · refine ⟨h.source, h.pending, fun _ => rfl, fun hp hs => ?_⟩
    have hidle := h.idle hp hs
    unfold TransferModel.active at hidle ⊢
    rwa [TransferModel.state_setFileTransferred]

theorem Timed.mark (h : w.Timed) (row : Nat) (status : FileStatus) (error : QString) :
    (w.setFileStatus row status error).Timed :=
  h.congr rfl rfl rfl rfl rfl (TransferModel.state_setFileStatus _ _ _ _)

/-- The timer of the session has just been started. -/
theorem Timed.watched (h : w.Timed) : ({ w with idleTimer := true } : World).Timed :=
  ⟨h.source, h.pending, fun _ => rfl, h.idle⟩

end

theorem Timed.headers (h : w.Timed) (i : ConnId) : (w.handleUploadHeaders i).Timed := by
  unfold World.handleUploadHeaders
  extract_lets sessionId fileId token
  split
  · exact h.respond i 400
  split
  · exact h.respond i 409
  split
  · exact h.respond i 403
  split
  · exact h.respond i 400
  · rename_i row _
    extract_lets finalPath
    split
    · exact h.respond i 200
    split
    · exact (h.mark row .failed _).respond i 500
    obtain ⟨ok, d, hopen⟩ := openFile_eq (finalPath ++ PartSuffix) w
    have hopened : ({ w with disk := d } : World).Timed := h.congr rfl rfl rfl rfl rfl rfl
    rw [hopen]
    cases ok
    · exact (hopened.mark row .failed _).respond i 500
    · have hentered : ({ w with
          disk := d
          handles := Function.update w.handles i (some ⟨finalPath ++ PartSuffix, []⟩)
          uploads := w.uploads.insert i ⟨row, i, finalPath ++ PartSuffix, finalPath⟩
          log := w.log ++ [Effect.opened i (w.conns i) row] } : World).Timed :=
        h.congr rfl rfl rfl rfl rfl rfl
      exact (port_timed i).streamBodyTo _ _ (hentered.mark row .transferring []).watched

omit [Qt] in
theorem Timed.removeFile (h : w.Timed) (path : QString) : (w.removeFile path).Timed := by
  obtain ⟨d, hd⟩ := removeFile_eq path w
  rw [hd]
  exact h.congr rfl rfl rfl rfl rfl rfl

theorem settleUpload_timed (h : w.Timed) (i : ConnId) (u : Upload) :
    (settleUpload i u w).2.Timed := by
  unfold settleUpload
  extract_lets digest w₁ complete declared
  have h₁ : w₁.Timed := by
    obtain ⟨d, hd, -⟩ := closeFile_eq u.file w
    simp only [w₁]
    rw [hd]
    exact h.congr rfl rfl rfl rfl rfl rfl
  clear_value w₁
  split
  · exact (h₁.removeFile u.partPath).mark _ _ _
  split
  · exact (h₁.removeFile u.partPath).mark _ _ _
  obtain ⟨ok, d, hrenamed, -⟩ := renameFile_eq u.partPath u.finalPath w₁
  have hdone : ∀ path, (World.fileDone i u.row path { w₁ with disk := d }).Timed := by
    intro path
    obtain ⟨content, heq⟩ := fileDone_eq i u.row path { w₁ with disk := d }
    rw [heq]
    refine h₁.congr rfl rfl rfl rfl rfl ?_
    exact (TransferModel.state_setFileStatus _ _ _ _).trans (TransferModel.state_setFileLocalPath _ _ _)
  rw [hrenamed]
  cases ok
  · exact hdone u.partPath
  · exact hdone u.finalPath

theorem Timed.handleUploadFinished (h : w.Timed) (i : ConnId) :
    (w.handleUploadFinished i).Timed := by
  unfold World.handleUploadFinished
  cases hu : w.uploads.lookup i with
  | none =>
    simp only
    split
    · exact h
    · exact h.respond i 400
  | some u =>
    have herased : ({ w with uploads := w.uploads.erase i } : World).Timed :=
      h.congr rfl rfl rfl rfl rfl rfl
    have hsettled := settleUpload_timed herased i u
    simp only
    generalize settleUpload i u { w with uploads := w.uploads.erase i } = settled at hsettled ⊢
    obtain ⟨status, v⟩ := settled
    exact (hsettled.respond i status).watched.concluded _

theorem Timed.handleCancel (h : w.Timed) (i : ConnId) : (w.handleCancel i).Timed := by
  unfold World.handleCancel
  extract_lets sessionId w₁
  have h₁ : w₁.Timed := h.respond i 200
  split
  · exact h₁.ticks.release (by decide) []
  split
  · exact h₁.finishSession _
  · exact h₁

theorem Timed.cancel (h : w.Timed) : w.cancel.Timed := by
  unfold World.cancel
  split
  · exact h.decline
  split
  · exact h
  · refine Timed.finishSession ?_ _
    unfold notifyPeerCancelled
    split
    · exact h
    · exact h.congr rfl rfl rfl rfl rfl rfl

/-- The timer that watches an open session has run out. -/
theorem onSessionIdle_timed (hsource : Crypto.Working w.random) (hidle : w.sessionId = [] → w.Timed) :
    w.onSessionIdle.Timed ∧ w.onSessionIdle.sessionId = [] ∧
      (w.pending = none → w.onSessionIdle.pending = none) := by
  unfold World.onSessionIdle
  split
  · rename_i hs
    exact ⟨hidle hs, hs, id⟩
  · obtain ⟨htimed, hp, hs⟩ := finishSession_timed hsource (fun _ => hidle) (str "failed")
    exact ⟨htimed, hs, fun _ => hp⟩

/-! ## Events -/

omit [Qt] in
theorem Timed.startListening (h : w.Timed) : w.startListening.Timed := by
  unfold World.startListening
  split
  · exact h
  · extract_lets server port
    split <;> exact h.congr rfl rfl rfl rfl rfl rfl

theorem Timed.stopListening (h : w.Timed) : w.stopListening.Timed := by
  unfold World.stopListening
  split
  · exact h
  · exact (h.finishSession _).congr rfl rfl rfl rfl rfl rfl

theorem Timed.setPort (h : w.Timed) (port : Int) : (w.setPort port).Timed := by
  unfold World.setPort
  split
  · exact h
  · rename_i settings _
    have hset : ({ w with settings := settings } : World).Timed :=
      h.congr rfl rfl rfl rfl rfl rfl
    unfold onSettingsChanged
    split
    · exact hset
    · exact hset.stopListening.startListening

theorem Timed.setReceiveEnabled (h : w.Timed) (enabled : Bool) :
    (w.setReceiveEnabled enabled).Timed := by
  unfold World.setReceiveEnabled
  split
  · exact h
  · rename_i settings _
    have hset : ({ w with settings := settings } : World).Timed :=
      h.congr rfl rfl rfl rfl rfl rfl
    extract_lets w₁
    split
    · exact hset.startListening.congr rfl rfl rfl rfl rfl rfl
    · exact hset.stopListening.congr rfl rfl rfl rfl rfl rfl

theorem listens_timed (i : ConnId) : Listens i Timed :=
  { port_timed i with
    write := fun f data _ h => h.write i f data
    headers := fun h => h.headers i
    progress := fun h => h.progress i }

theorem Timed.onRequestReady (h : w.Timed) (i : ConnId) : (w.onRequestReady i).Timed := by
  unfold World.onRequestReady
  extract_lets path
  split
  · exact (port_timed i).respond _ _ _ h
  split
  · obtain ⟨devices, hdevices⟩ := registerPeer_eq (w.conns i).jsonBody (w.conns i).peerAddress w
    have hnoted : (w.registerPeer (w.conns i).jsonBody (w.conns i).peerAddress).2.Timed := by
      rw [hdevices]
      exact h.congr rfl rfl rfl rfl rfl rfl
    exact (port_timed i).respond _ _ _ hnoted
  split
  · exact h.prepare i
  split
  · exact h.handleUploadFinished i
  split
  · exact h.handleCancel i
  · exact h.respond i 404

theorem Timed.readyRead (h : w.Timed) (hinv : w.Inv) (hl : w.live i = true) (data : QByteArray) :
    (w.step (.readyRead i data)).Timed := by
  have hheard := (listens_timed i).heard hinv hl h data
  by_cases hc : w.Completes i data
  · rw [(hc.reads hinv).2]
    exact hheard.onRequestReady i
  · rw [step_incomplete hinv hl hc]
    exact hheard

theorem Timed.acceptTimeout (h : w.Timed) : (w.step .acceptTimeout).Timed ∧
    (w.step .acceptTimeout).pending = none := by
  simp only [World.step]
  split
  · have hstopped : ({ w with acceptTimer := false } : World).Ticks :=
      h.ticks.congr rfl rfl rfl rfl rfl
    exact hstopped.onAcceptTimeout
  · rename_i hoff
    exact ⟨h, not_not.1 fun hne => hoff (h.pending hne)⟩

theorem Timed.sessionIdle (h : w.Timed) : (w.step .sessionIdle).Timed ∧
    (w.step .sessionIdle).sessionId = [] ∧
      (w.pending = none → (w.step .sessionIdle).pending = none) := by
  simp only [World.step]
  split
  · refine onSessionIdle_timed (w := { w with idleTimer := false }) h.source fun hs => ?_
    exact ⟨h.source, h.pending, fun hne => absurd hs hne, h.idle⟩
  · rename_i hoff
    exact ⟨h, not_not.1 fun hne => hoff (h.session hne), id⟩

theorem Timed.step (h : w.Timed) (hinv : w.Inv) (e : Event) : (w.step e).Timed := by
  have same : ∀ {v : World}, v.random = w.random → v.pending = w.pending →
      v.sessionId = w.sessionId → v.acceptTimer = w.acceptTimer → v.idleTimer = w.idleTimer →
      v.transfer = w.transfer → v.Timed := by
    intro v hr hp hs ha hi ht
    exact h.congr hr hp hs ha hi (congrArg TransferModel.state ht)
  cases e with
  | readyRead i data =>
    by_cases hl : w.live i = true
    · exact h.readyRead hinv hl data
    · rwa [World.step, if_neg hl]
  | acceptTimeout => exact h.acceptTimeout.1
  | sessionIdle => exact h.sessionIdle.1
  | connect address certificate =>
    simp only [World.step]
    split
    · exact same rfl rfl rfl rfl rfl rfl
    · exact h
  | disconnected i =>
    simp only [World.step]
    split
    · exact (port_timed i).hangUp h
    · exact h
  | idleTimeout i =>
    simp only [World.step]
    split
    · exact (port_timed i).onIdleTimeout h
    · exact h
  | headerDeadline i =>
    simp only [World.step]
    split
    · exact (port_timed i).onHeaderDeadline h
    · exact h
  | accept => exact h.ticks.accept
  | decline => exact h.decline
  | cancel => exact h.cancel
  | startListening => exact h.startListening
  | stopListening => exact h.stopListening
  | setPort port => exact h.setPort port
  | setReceiveEnabled enabled => exact h.setReceiveEnabled enabled
  | otherFiles disk =>
    simp only [World.step]
    split
    · exact same rfl rfl rfl rfl rfl rfl
    · exact h
  | _ => exact same rfl rfl rfl rfl rfl rfl

omit [Qt] in
theorem Start.timed (h : w.Start) (hr : Crypto.Working w.random) : w.Timed := by
  refine .over hr h.pending h.sessionId ?_
  rw [h.transfer]
  rfl

theorem reached_timed (h : Lib.Reached system w) (hr : Crypto.Working w.random) : w.Timed := by
  induction h with
  | start hs => exact hs.timed hr
  | @next w e hreached _ ih =>
    have hinv := reached_inv hreached
    have hsame : (w.step e).random = w.random := run_random [e] hinv
    exact (ih (hsame ▸ hr)).step hinv e

/-! ## Files that are open -/

/-- Every file that is open is being written by an upload. -/
def Attended (w : World) : Prop := ∀ f, w.handles f ≠ none → w.uploads.lookup f ≠ none

omit [Qt] in
theorem Attended.gone {f : FileId} (h : w.Attended)
    (hu : v.uploads = w.uploads.erase f) (hh : v.handles = Function.update w.handles f none) :
    v.Attended := by
  intro f' hne
  by_cases hf : f' = f
  · subst hf
    rw [hh, Function.update_self] at hne
    exact absurd rfl hne
  · rw [hh, Function.update_of_ne hf] at hne
    rw [hu, AList.lookup_erase_ne hf]
    exact h f' hne

omit [Qt] in
theorem Attended.write (h : w.Attended) (i : ConnId) (f : FileId) (data : QByteArray) :
    (w.write i f data).2.Attended := by
  unfold World.write
  split
  · exact h
  · rename_i file hfile
    intro f' hne
    by_cases hf : f' = f
    · subst hf
      exact h f' (by rw [hfile]; exact Option.some_ne_none _)
    · refine h f' ?_
      simpa only [Function.update_of_ne hf] using hne

theorem Act.attended (ha : Act g w v) (h : w.Inv) (hw : w.Attended) : v.Attended := by
  cases ha with
  | wrote => exact hw.write _ _ _
  | short => exact hw.write _ _ _
  | @openSession k directory =>
    obtain ⟨id, d, t, tokens, heq, -⟩ := openSession_eq w k directory
    rw [heq]
    exact hw
  | @enter k row path =>
    obtain ⟨d, hd⟩ := entered_eq w k row path { w.conns k with
      sink := some k
      maxBodyBytes := (w.transfer.entry row).size }
    rw [hd]
    intro f hne
    by_cases hf : f = k
    · subst hf
      exact fun hnone => Option.some_ne_none _ ((AList.lookup_insert _).symm.trans hnone)
    · have hne' : w.handles f ≠ none := by
        simpa only [World.beginUpload, World.setFileStatus, World.setConn,
          Function.update_of_ne hf] using hne
      change (AList.insert k _ w.uploads).lookup f ≠ none
      rw [AList.lookup_insert_ne hf]
      exact hw f hne'
  | @drop k u c error hu =>
    obtain ⟨d, hd⟩ := dropUpload_eq k u error w
    rw [hd]
    exact hw.gone rfl (by rw [← (h.served k u hu).file]; rfl)
  | @settle k u hu =>
    obtain ⟨d, t, l, heq⟩ := settleUpload_eq k u { w with uploads := w.uploads.erase k }
    rw [heq]
    exact hw.gone rfl (by rw [← (h.served k u hu).file])
  | remember =>
    unfold rememberPeer
    split <;> exact hw
  | record =>
    unfold writeHistory
    split <;> exact hw
  | _ => exact hw

theorem reached_attended (h : Lib.Reached system w) : w.Attended :=
  reached_keep (fun w e _ _ => permits_all w e)
    (fun _ hs f hne => absurd (hs.handles f) hne) (fun ha hinv hw => ha.attended hinv hw) h

/-- Nothing is going on: nobody waits, and no upload, token or open file is left. -/
structure Free (w : World) : Prop where
  pending : w.pending = none
  session : w.sessionId = []
  tokens : w.tokens = ∅
  uploads : w.uploads = ∅
  handles : ∀ f, w.handles f = none
  transfer : w.transfer.active = false

/-- Whatever has happened, what is waited for has its timer running, and once the two timers have
fired nothing is going on any more. -/
theorem frees_up (h : Lib.Reached system w) (hr : Crypto.Working w.random) :
    (w.pending ≠ none → w.acceptTimer = true) ∧ (w.sessionId ≠ [] → w.idleTimer = true) ∧
      ((w.step .acceptTimeout).step .sessionIdle).Free := by
  have htimed := reached_timed h hr
  obtain ⟨htimeout, hp⟩ := htimed.acceptTimeout
  obtain ⟨hfinal, hs, hpending⟩ := htimeout.sessionIdle
  have hreached : Lib.Reached system ((w.step .acceptTimeout).step .sessionIdle) :=
    .next (S := system) .sessionIdle (.next (S := system) .acceptTimeout h trivial) trivial
  have hempty := (reached_inv hreached).uploads_empty hs
  refine ⟨htimed.pending, htimed.session, ?_⟩
  exact {
    pending := hpending hp
    session := hs
    tokens := (reached_lifeCycle hreached hfinal.source).tokens hs
    uploads := hempty
    handles := fun f => not_not.1 fun hne => by
      refine reached_attended hreached f hne ?_
      rw [hempty]
      exact AList.lookup_empty f
    transfer := hfinal.idle (hpending hp) hs }

end

/-! ## An upload that falls silent -/

section

local instance silentQt : Qt := Ascii.qt [(Ascii.json oneFile, oneFile)] []

/-- The last byte of the file never comes. -/
def silentEvents : List Event := (helloEvents oneFile).take 3 ++ [
  .connect (str "10.0.0.2") none,
  .readyRead 1 helloUpload.dropLast]

theorem silent_frees_up : ∃ w : World, w.sessionId ≠ [] ∧ w.uploads.keys = [1] ∧
    w.transfer.active = true ∧ w.idleTimer = true ∧
      ((w.step .acceptTimeout).step .sessionIdle).Free := by
  have hreached : Lib.Reached system (silentEvents.foldl step helloStart) :=
    Lib.ReachedBy.run_any _ (.start helloStart_start)
  have hworking : Crypto.Working (silentEvents.foldl step helloStart).random := by
    rw [run_random _ helloStart_start.inv]
    exact fun n => Option.some_ne_none _
  have hopen : (silentEvents.foldl step helloStart).sessionId ≠ [] := by decide +kernel
  obtain ⟨-, htimer, hfree⟩ := frees_up hreached hworking
  exact ⟨_, hopen, by decide +kernel, by decide +kernel, htimer hopen, hfree⟩

end

end LocalSend.World
