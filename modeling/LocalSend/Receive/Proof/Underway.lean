import LocalSend.Receive.Proof.Accept
import LocalSend.Receive.Proof.Alone

/-!
# A session that is open has something left to do

Every handler that settles a row looks whether it was the last one, and finishes the session then;
only the two refusals of an upload at its headers that mark the row as failed do not. In a run in
which these never meet the last row (`Roomy`), a session that is open has a row that waits or is
being transferred (`session_underway`). What each slot keeps is `Underway`: it is lost between the
mark and the end of the session, so it is shown of the slots as a whole.
-/

set_option autoImplicit false

namespace LocalSend

/-! ## Rows that are not settled -/

namespace TransferModel

variable {t t' : TransferModel}

/-- A row waits or is being transferred. -/
def Unsettled (t : TransferModel) : Prop := ∃ r < t.fileCount,
  (t.entry r).status = .waiting ∨ (t.entry r).status = .transferring

theorem countP_statuses (files : List FileEntry) :
    (files.countP fun f => f.status = .done) +
      (files.countP fun f => f.status = .failed ∨ f.status = .skipped) +
      (files.countP fun f => f.status = .waiting ∨ f.status = .transferring) = files.length := by
  induction files with
  | nil => rfl
  | cons f files ih =>
    have hone : (if decide (f.status = .done) = true then 1 else 0) +
        (if decide (f.status = .failed ∨ f.status = .skipped) = true then 1 else 0) +
        (if decide (f.status = .waiting ∨ f.status = .transferring) = true then 1 else 0) = 1 := by
      cases f.status <;> rfl
    rw [List.countP_cons, List.countP_cons, List.countP_cons, List.length_cons]
    omega

theorem exists_entry (p : FileEntry → Prop) :
    (∃ r < t.fileCount, p (t.entry r)) ↔ ∃ f ∈ t.files, p f := by
  constructor
  · rintro ⟨r, hr, hp⟩
    refine ⟨t.entry r, ?_, hp⟩
    unfold entry
    rw [List.getD_eq_getElem _ _ hr]
    exact List.getElem_mem hr
  · rintro ⟨f, hf, hp⟩
    obtain ⟨r, hr, rfl⟩ := List.getElem_of_mem hf
    refine ⟨r, hr, ?_⟩
    unfold entry
    rwa [List.getD_eq_getElem _ _ hr]

theorem settled_iff : t.settled = true ↔ ¬ t.Unsettled := by
  have hcount := countP_statuses t.files
  unfold Unsettled
  rw [exists_entry fun f => f.status = .waiting ∨ f.status = .transferring]
  unfold settled completedCount failedCount fileCount
  rw [decide_eq_true_iff]
  constructor
  · rintro hle ⟨f, hf, hst⟩
    have hpos : 0 < t.files.countP fun f => f.status = .waiting ∨ f.status = .transferring :=
      List.countP_pos_iff.2 ⟨f, hf, decide_eq_true hst⟩
    omega
  · intro hnone
    have hzero : (t.files.countP fun f => f.status = .waiting ∨ f.status = .transferring) = 0 :=
      List.countP_eq_zero.2 fun f hf hst => hnone ⟨f, hf, of_decide_eq_true hst⟩
    omega

/-- A row other than this one is not settled. -/
def LeftBut (t : TransferModel) (row : Nat) : Prop := ∃ r < t.fileCount, r ≠ row ∧
  ((t.entry r).status = .waiting ∨ (t.entry r).status = .transferring)

/-- Whatever becomes of a row, the others are left. -/
theorem LeftBut.mark {row : Nat} (h : t.LeftBut row) (status : FileStatus) (error : QString) :
    (t.setFileStatus row status error).Unsettled := by
  obtain ⟨r, hr, hne, hst⟩ := h
  refine ⟨r, ?_, ?_⟩
  · rw [fileCount_congr (declared_setFileStatus t row status error)]
    exact hr
  · rw [status_setFileStatus, if_neg fun heq => hne heq.1]
    exact hst

/-- A row that is being transferred is left itself. -/
theorem unsettled_transferring {row : Nat} (hrow : row < t.fileCount) (error : QString) :
    (t.setFileStatus row .transferring error).Unsettled := by
  refine ⟨row, ?_, .inr ?_⟩
  · rw [fileCount_congr (declared_setFileStatus t row .transferring error)]
    exact hrow
  · rw [status_setFileStatus, if_pos ⟨rfl, hrow⟩]

theorem Unsettled.alike (h : t.Unsettled) (ha : t.Alike t') : t'.Unsettled := by
  obtain ⟨r, hr, hst⟩ := h
  refine ⟨r, ?_, ?_⟩
  · rw [fileCount_congr ha.declared]
    exact hr
  · rw [ha.status]
    exact hst

end TransferModel

/-! ## What neither a connection nor its end touches -/

/-- Kept when the connection is set, and by who hears that it closed. -/
structure Port.Preserves {σ : Type} (p : Port σ) (P : σ → Prop) : Prop where
  set : ∀ c {s}, P s → P (p.set c s)
  closed : ∀ {s}, P s → P (p.closed s)

namespace Port.Preserves

variable {σ : Type} {p : Port σ} {P : σ → Prop} {s : σ}

theorem modify (h : p.Preserves P) (f : HttpConnection → HttpConnection) (hs : P s) :
    P (p.modify f s) := h.set _ hs

theorem hangUp (h : p.Preserves P) (hs : P s) : P (p.hangUp s) := by
  unfold Port.hangUp Port.onDisconnected
  split
  · exact h.modify _ hs
  · exact h.closed (h.modify _ (h.modify _ hs))

theorem transmit (h : p.Preserves P) (status : Nat) (payload contentType : QByteArray) (hs : P s) :
    P (p.transmit status payload contentType s) := by
  unfold Port.transmit
  split
  · extract_lets s₁ s₂
    have h₁ : P s₁ := h.modify _ hs
    have h₂ : P s₂ := by
      simp only [s₂]
      split
      · exact h.hangUp h₁
      · exact h₁
    split
    · exact h.modify _ h₂
    · exact h.modify _ h₂
  · exact hs

theorem respond (h : p.Preserves P) (status : Nat) (payload contentType : QByteArray) (hs : P s) :
    P (p.respond status payload contentType s) := by
  unfold Port.respond
  split
  · exact hs
  · exact h.transmit _ _ _ (h.modify _ hs)

theorem streamBodyTo (h : p.Preserves P) (sink : FileId) (maxBytes : Int) (hs : P s) :
    P (p.streamBodyTo sink maxBytes s) := by
  unfold Port.streamBodyTo
  extract_lets s₁
  have h₁ : P s₁ := h.modify _ hs
  split
  · exact h.respond _ _ _ h₁
  · exact h₁

theorem onIdleTimeout (h : p.Preserves P) (hs : P s) : P (p.onIdleTimeout s) := by
  unfold Port.onIdleTimeout
  extract_lets s₁
  have h₁ : P s₁ := h.modify _ hs
  split
  · exact h.hangUp h₁
  · exact h.respond _ _ _ h₁

theorem onHeaderDeadline (h : p.Preserves P) (hs : P s) : P (p.onHeaderDeadline s) := by
  unfold Port.onHeaderDeadline
  extract_lets s₁
  have h₁ : P s₁ := h.modify _ hs
  split
  · exact h.respond _ _ _ h₁
  · exact h₁

end Port.Preserves

namespace World

section
variable {w v : World} {i : ConnId}

/-- Of a request that waits every row waits, and of a session that is open a row is left. -/
structure Underway (w : World) : Prop where
  exclusive : w.pending = none ∨ w.sessionId = []
  served : w.sessionId = [] → w.uploads = ∅
  parked : w.pending ≠ none → 0 < w.transfer.fileCount ∧
    ∀ r < w.transfer.fileCount, (w.transfer.entry r).status = .waiting
  left : w.sessionId ≠ [] → w.transfer.Unsettled

/-- Nothing is going on. -/
theorem Underway.over (hp : w.pending = none) (hs : w.sessionId = []) (hu : w.uploads = ∅) :
    w.Underway :=
  ⟨.inl hp, fun _ => hu, fun hne => absurd hp hne, fun hne => absurd hs hne⟩

/-- Something is left of an open session. -/
theorem Underway.open_ (hp : w.pending = none) (hs : w.sessionId ≠ [])
    (hleft : w.transfer.Unsettled) : w.Underway :=
  ⟨.inl hp, fun hnil => absurd hnil hs, fun hne => absurd hp hne, fun _ => hleft⟩

/-- The rows are as they were, and the request may have been let go. -/
theorem Underway.congr (h : w.Underway) (hp : v.pending = w.pending ∨ v.pending = none)
    (hs : v.sessionId = w.sessionId) (hu : v.uploads = w.uploads)
    (ht : w.transfer.Alike v.transfer) : v.Underway where
  exclusive := by
    rw [hs]
    rcases hp with hp | hp
    · rw [hp]
      exact h.exclusive
    · exact .inl hp
  served hnil := by
    rw [hu]
    exact h.served (hs.symm.trans hnil)
  parked hne := by
    rcases hp with hp | hp
    · rw [hp] at hne
      obtain ⟨hpos, hwaiting⟩ := h.parked hne
      rw [TransferModel.fileCount_congr ht.declared]
      refine ⟨hpos, fun r hr => ?_⟩
      rw [ht.status]
      exact hwaiting r hr
    · exact absurd hp hne
  left hne := (h.left (by rwa [← hs])).alike ht

theorem Underway.upload (h : w.Underway) {u : Upload} (hu : w.uploads.lookup i = some u) :
    w.sessionId ≠ [] ∧ w.pending = none := by
  have hs : w.sessionId ≠ [] := by
    intro hnil
    rw [h.served hnil, AList.lookup_empty] at hu
    cases hu
  exact ⟨hs, h.exclusive.resolve_right hs⟩

end

section
variable [Qt] {w v : World} {i : ConnId}

/-! ## The end of a session -/

omit [Qt] in
theorem skipRows_pending : ∀ (rows : List Nat) (w : World),
    (rows.foldl skipRow w).pending = w.pending
  | [], _ => rfl
  | row :: rows, w => by
    have hskip : (w.skipRow row).pending = w.pending := by
      unfold skipRow
      split <;> rfl
    rw [List.foldl_cons, skipRows_pending rows, hskip]

theorem settleSession_over (hp : w.pending = none) (hu : w.uploads = ∅) (status : QString) :
    (w.settleSession status).Underway := by
  unfold settleSession
  extract_lets w₁ w₂ w₃ w₄ destination
  obtain ⟨-, -, hu₁⟩ := skipRows_acts (g := .all) (List.range w.transfer.fileCount) w
  have hp₁ : w₁.pending = none := (skipRows_pending _ w).trans hp
  obtain ⟨t, ht⟩ : ∃ t, w₂ = { w₁ with transfer := t } := setOutcome_frame w₁ status
  have hover₂ : w₂.pending = none ∧ w₂.uploads = ∅ := by
    rw [ht]
    exact ⟨hp₁, hu₁.trans hu⟩
  have hover₃ : w₃.pending = none ∧ w₃.uploads = ∅ := by
    simp only [w₃]
    unfold rememberPeer
    split <;> exact hover₂
  have hover₄ : w₄.pending = none ∧ w₄.uploads = ∅ := by
    simp only [w₄]
    unfold writeHistory
    split <;> exact hover₃
  exact .over hover₄.1 rfl hover₄.2

/-- A session that is finished is over, and nobody waits. -/
theorem finishSession_underway (status : QString) (hserved : w.sessionId = [] → w.uploads = ∅) :
    (w.finishSession status).Underway := by
  unfold finishSession
  extract_lets hadSession w₁ w₂ w₃
  have hu₂ : w₂.uploads = ∅ := cutOffs_uploads w₁
  have hs₂ : w₂.sessionId = w.sessionId := (cutOffs_frame _ w₁).1
  obtain ⟨hp₃, hs₃, hu₃⟩ : w₃.pending = none ∧ w₃.sessionId = w.sessionId ∧ w₃.uploads = ∅ := by
    simp only [w₃]
    split
    · rename_i i hp
      obtain ⟨hs, hu⟩ := (parted_respond w₂ i 403 [] jsonType).frame
      exact ⟨rfl, hs.trans hs₂, hu.trans hu₂⟩
    · rename_i hp
      exact ⟨hp, hs₂, hu₂⟩
  split
  · rename_i hidle
    exact .over hidle.2 (not_not.1 hidle.1) (hserved (not_not.1 hidle.1))
  split
  · rename_i hnever
    exact .over hp₃ (hs₃.trans (not_not.1 hnever)) hu₃
  · exact settleSession_over hp₃ hu₃ status

/-- A row was settled, and if it was the last one the session is finished. -/
theorem concluded_underway (status : QString) (hp : w.pending = none) (hs : w.sessionId ≠ []) :
    (if w.transfer.settled then w.finishSession status else w).Underway := by
  split
  · exact finishSession_underway status fun hnil => absurd hnil hs
  · rename_i hsettled
    refine .open_ hp hs (not_not.1 fun hnone => hsettled ?_)
    exact TransferModel.settled_iff.2 hnone

omit [Qt] in
theorem Underway.onPendingClosed (h : w.Underway) (i : ConnId) : (w.onPendingClosed i).Underway := by
  obtain ⟨p, timer, t, heq, ht, hp⟩ := onPendingClosed_eq i w
  rw [heq]
  exact h.congr hp rfl rfl ht

theorem Underway.onUploadClosed (h : w.Underway) (i : ConnId) : (w.onUploadClosed i).Underway := by
  unfold World.onUploadClosed
  cases hu : w.uploads.lookup i with
  | none => exact h
  | some u =>
    obtain ⟨hs, hp⟩ := h.upload hu
    obtain ⟨d, hd⟩ := dropUpload_eq i u (str "The sender disconnected") w
    have hdrop : World.setFileStatus u.row .failed (str "The sender disconnected")
        (World.removeFile u.partPath (closeFile u.file { w with uploads := w.uploads.erase i })) =
          w.dropUpload i u (str "The sender disconnected") := rfl
    simp only
    rw [hdrop, hd]
    exact concluded_underway _ hp hs

theorem port_underway (i : ConnId) : (port i).Preserves Underway where
  set _ _ h := h.congr (.inl rfl) rfl rfl (.refl _)
  closed h := (h.onPendingClosed i).onUploadClosed i

theorem Underway.respond (h : w.Underway) (i : ConnId) (status : Nat) :
    (w.respond i status).Underway := (port_underway i).respond _ _ _ h

/-! ## The parked request -/

omit [Qt] in
theorem Parted.alike {r : Response} (h : Parted i r w v) : w.transfer.Alike v.transfer := by
  obtain ⟨c, -, -, rfl | rfl⟩ := h
  · exact .refl _
  · obtain ⟨p, timer, t, heq, ht, -⟩ := onPendingClosed_eq i w
    rw [heq]
    exact ht

omit [Qt] in
theorem Underway.parkedRespond (h : w.Underway) (i : ConnId) (status : Nat)
    (payload contentType : QByteArray) :
    ((parkedPort i).respond status payload contentType w).Underway := by
  have hkeeps : (parkedPort i).Preserves Underway :=
    ⟨fun _ _ h => h.congr (.inl rfl) rfl rfl (.refl _), fun h => h.onPendingClosed i⟩
  exact hkeeps.respond _ _ _ h

omit [Qt] in
theorem Underway.setState (h : w.Underway) (state : TransferState) (error : QString) :
    (w.setState state error).Underway :=
  h.congr (.inl rfl) rfl rfl (TransferModel.alike_setState _ _ _)

omit [Qt] in
theorem Underway.release (h : w.Underway) : w.releasePending.Underway :=
  h.congr (.inr rfl) rfl rfl (.refl _)

theorem Underway.accept (h : w.Underway) : w.accept.Underway := by
  unfold World.accept
  split
  · exact h
  · rename_i i hp
    obtain ⟨hpos, hwaiting⟩ := h.parked (by rw [hp]; exact Option.some_ne_none i)
    have hclosed : w.sessionId = [] := h.exclusive.resolve_left (by rw [hp]; exact Option.some_ne_none i)
    obtain ⟨directory, d, heq⟩ := prepareDirectory_eq w
    rw [heq]
    have hready : ({ w with disk := d } : World).Underway := h.congr (.inl rfl) rfl rfl (.refl _)
    simp only
    split
    · have hrefused := ((hready.parkedRespond i 500 [] jsonType).release.setState .failed
        (str "Cannot write to the destination folder"))
      exact hrefused.congr (.inl rfl) rfl rfl (.refl _)
    · -- between the two the session is open and the request still waits
      obtain ⟨id, n, t, tokens, hopen, -, -, halike, -⟩ :=
        openSession_eq { w with disk := d } i directory
      generalize World.openSession i directory { w with disk := d } = u at hopen
      have hparted := parted_respond u i 200 (Qt.toJson u.acceptResponse) jsonType
      have halike' := hparted.alike
      obtain ⟨hs, hu⟩ := hparted.frame
      unfold Port.respondJson
      generalize (parkedPort i).respond 200 (Qt.toJson u.acceptResponse) jsonType u = v at hs hu halike'
      have huploads : v.uploads = ∅ := by
        rw [hu, hopen]
        exact h.served hclosed
      have hleft : v.transfer.Unsettled := by
        refine TransferModel.Unsettled.alike ⟨0, hpos, .inl (hwaiting 0 hpos)⟩ ?_
        rw [hopen] at halike'
        exact halike.trans halike'
      by_cases hid : v.sessionId = []
      · exact .over rfl hid huploads
      · refine .open_ rfl hid (hleft.alike ?_)
        exact (TransferModel.alike_setDestination _ _).trans (TransferModel.alike_setState _ _ _)

omit [Qt] in
theorem Underway.refusePending (h : w.Underway) (i : ConnId) : (w.refusePending i).Underway :=
  (h.parkedRespond i 403 [] jsonType).release

omit [Qt] in
theorem Underway.decline (h : w.Underway) : w.decline.Underway := by
  unfold World.decline
  split
  · exact h
  · exact ((h.refusePending _).setState .idle []).congr (.inl rfl) rfl rfl (.refl _)

omit [Qt] in
theorem Underway.onAcceptTimeout (h : w.Underway) : w.onAcceptTimeout.Underway := by
  unfold World.onAcceptTimeout
  split
  · exact h
  · exact (h.refusePending _).setState .idle []

/-- The rows of a request that is parked wait, and there is one. -/
theorem Underway.park (h : w.Underway) (hidle : ¬ w.Busy) (hfiles : requestFiles (w.conns i) ≠ []) :
    (w.park i).Underway := by
  obtain ⟨-, hclosed⟩ := not_or.1 hidle
  have hrows : (w.park i).transfer.files = parseEntries (requestFiles (w.conns i)) :=
    TransferModel.files_setState _ _ _
  have hpos : 0 < (w.park i).transfer.fileCount := by
    unfold TransferModel.fileCount
    rw [hrows, parseEntries, List.length_map]
    obtain ⟨e, rest, he⟩ := List.exists_cons_of_ne_nil hfiles
    have hkey : e.1 ∈ (requestFiles (w.conns i)).keys := by
      unfold QJsonObject.keys
      rw [he, List.map_cons, List.mem_eraseDups]
      exact List.mem_cons_self
    exact List.length_pos_of_mem hkey
  refine ⟨.inr (not_not.1 hclosed), h.served, fun _ => ⟨hpos, fun r hr => ?_⟩,
    fun hne => absurd hne hclosed⟩
  unfold TransferModel.entry
  rw [List.getD_eq_getElem _ _ hr]
  have hmem := List.getElem_mem hr
  generalize (w.park i).transfer.files[r] = f at hmem
  rw [hrows] at hmem
  obtain ⟨key, -, rfl⟩ := List.mem_map.1 hmem
  rfl

theorem Underway.prepare (h : w.Underway)
    (hpath : (w.conns i).path = endpoint Protocol.PathPrepareUpload) :
    (w.handlePrepareUpload i).Underway := by
  have hparks : ∀ limiter devices, w.Takes i →
      (World.park i { w with pinAttempts := limiter, devices := devices }).Underway := by
    intro limiter devices htakes
    have hready : ({ w with pinAttempts := limiter, devices := devices } : World).Underway :=
      h.congr (.inl rfl) rfl rfl (.refl _)
    exact hready.park htakes.idle htakes.files
  have hprepares := handlePrepareUpload_prepares w i
  generalize w.handlePrepareUpload i = v at hprepares ⊢
  cases hprepares with
  | refused limiter headers =>
    have hcounted : ({ w.setConn i { w.conns i with extraHeaders := headers } with
        pinAttempts := limiter } : World).Underway := h.congr (.inl rfl) rfl rfl (.refl _)
    exact hcounted.respond i _
  | accepted limiter devices htakes => exact (hparks limiter devices (htakes hpath)).accept
  | prompted limiter devices htakes =>
    exact (hparks limiter devices (htakes hpath)).congr (.inl rfl) rfl rfl (.refl _)

/-! ## Uploads and what ends them -/

theorem Underway.handleUploadFinished (h : w.Underway) (i : ConnId) :
    (w.handleUploadFinished i).Underway := by
  unfold World.handleUploadFinished
  cases hu : w.uploads.lookup i with
  | none =>
    simp only
    split
    · exact h
    · exact h.respond i 400
  | some u =>
    obtain ⟨hs, hp⟩ := h.upload hu
    obtain ⟨d, t, l, heq⟩ := settleUpload_eq i u { w with uploads := w.uploads.erase i }
    simp only
    generalize settleUpload i u { w with uploads := w.uploads.erase i } = settled at heq ⊢
    obtain ⟨status, v⟩ := settled
    have heq : v = _ := heq
    simp only
    -- whether the row was the last one is asked after the answer, which touches the connection only
    have hloose : Loose i v := by
      rw [heq]
      exact ⟨by rw [show w.pending = none from hp]; exact nofun, AList.lookup_erase _ _⟩
    obtain ⟨c, hc, -⟩ := hloose.respond status [] jsonType
    have hc : v.respond i status = v.setConn i c := hc
    rw [hc]
    have hp' : (v.setConn i c).pending = none := by
      rw [heq]
      exact hp
    have hs' : (v.setConn i c).sessionId ≠ [] := by
      rw [heq]
      exact hs
    exact concluded_underway (w := { v.setConn i c with idleTimer := true }) _ hp' hs'

theorem Underway.finishSession (h : w.Underway) (status : QString) :
    (w.finishSession status).Underway := finishSession_underway status h.served

theorem Underway.handleCancel (h : w.Underway) (i : ConnId) : (w.handleCancel i).Underway := by
  unfold World.handleCancel
  extract_lets sessionId w₁
  have h₁ : w₁.Underway := h.respond i 200
  split
  · exact (h₁.congr (v := { w₁.releasePending with acceptTimer := false }) (.inr rfl) rfl rfl
      (.refl _)).setState .cancelled []
  split
  · exact h₁.finishSession _
  · exact h₁

theorem Underway.cancel (h : w.Underway) : w.cancel.Underway := by
  unfold World.cancel
  split
  · exact h.decline
  split
  · exact h
  · refine Underway.finishSession ?_ _
    unfold notifyPeerCancelled
    split
    · exact h
    · exact h.congr (.inl rfl) rfl rfl (.refl _)

theorem Underway.onSessionIdle (h : w.Underway) : w.onSessionIdle.Underway := by
  unfold World.onSessionIdle
  split
  · exact h
  · exact h.finishSession _

/-! ## Listening -/

omit [Qt] in
theorem Underway.startListening (h : w.Underway) : w.startListening.Underway := by
  unfold World.startListening
  split
  · exact h
  · extract_lets server port
    split <;> exact h.congr (.inl rfl) rfl rfl (.refl _)

theorem Underway.stopListening (h : w.Underway) : w.stopListening.Underway := by
  unfold World.stopListening
  split
  · exact h
  · exact (h.finishSession _).congr (.inl rfl) rfl rfl (.refl _)

theorem Underway.onSettingsChanged (h : w.Underway) : w.onSettingsChanged.Underway := by
  unfold World.onSettingsChanged
  split
  · exact h
  · exact h.stopListening.startListening

theorem Underway.setPort (h : w.Underway) (port : Int) : (w.setPort port).Underway := by
  unfold World.setPort
  split
  · exact h
  · exact Underway.onSettingsChanged (h.congr (.inl rfl) rfl rfl (.refl _))

theorem Underway.setReceiveEnabled (h : w.Underway) (enabled : Bool) :
    (w.setReceiveEnabled enabled).Underway := by
  unfold World.setReceiveEnabled
  split
  · exact h
  · rename_i settings _
    have hset : ({ w with settings := settings } : World).Underway :=
      h.congr (.inl rfl) rfl rfl (.refl _)
    extract_lets w₁
    split
    · exact hset.startListening.congr (.inl rfl) rfl rfl (.refl _)
    · exact hset.stopListening.congr (.inl rfl) rfl rfl (.refl _)

/-! ## The headers of an upload -/

/-- A file for `row` cannot be begun: no name is free, or the one that is cannot be opened. -/
def NoRoom (w : World) (row : Nat) : Prop :=
  let finalPath := w.reserveFilePath w.sessionDirectory (w.transfer.entry row).fileName
  finalPath = [] ∨ (w.openFile (finalPath ++ PartSuffix)).1 = false

/-- An upload is let in whose refusal settles the last row that was left. -/
structure Strands (w : World) (i : ConnId) (row : Nat) : Prop extends w.Admits i row where
  method : (w.conns i).method ≠ str "OPTIONS"
  noRoom : w.NoRoom row
  last : ¬ w.transfer.LeftBut row

theorem Underway.handleUploadHeaders (h : w.Underway) (hl : w.live i = true)
    (hb : (w.conns i).InBody) (hnew : w.uploads.lookup i = none)
    (hpath : (w.conns i).path = endpoint Protocol.PathUpload)
    (hroom : ∀ row, w.Admits i row → w.NoRoom row → w.transfer.LeftBut row) :
    (w.handleUploadHeaders i).Underway := by
  obtain ⟨hi, hup⟩ := live_iff.1 hl
  have hmark : ∀ row error, w.Admits i row → w.NoRoom row →
      ((w.setFileStatus row .failed error).respond i 500).Underway := by
    intro row error hadm hfull
    have hp : w.pending = none := h.exclusive.resolve_right hadm.open_
    have hleft := (hroom row hadm hfull).mark .failed error
    exact (Underway.open_ (w := w.setFileStatus row .failed error) hp hadm.open_ hleft).respond i 500
  unfold World.handleUploadHeaders
  extract_lets sessionId fileId token
  split
  · exact h.respond i 400
  rename_i hne
  split
  · exact h.respond i 409
  rename_i hses
  split
  · exact h.respond i 403
  rename_i hauth
  rcases hrow : w.transfer.indexOfFile fileId with - | row
  · exact h.respond i 400
  simp only
  split
  · exact h.respond i 200
  rename_i hdone
  obtain ⟨hses₁, hses₂⟩ := not_or.1 hses
  obtain ⟨htoken, haddress⟩ := not_or.1 hauth
  have hadm : w.Admits i row := {
    inBody := hb
    up := hup
    new := hnew
    path := hpath
    born := hi
    open_ := hses₁
    session := not_not.1 hses₂
    token := ⟨fun h => hne (.inr (.inr h)), not_not.1 htoken⟩
    address := not_not.1 haddress
    found := hrow
    notDone := hdone }
  split
  · rename_i hnil
    exact hmark row _ hadm (.inl hnil)
  rename_i hnamed
  rcases openFile_cases (w.reserveFilePath w.sessionDirectory (w.transfer.entry row).fileName ++
    PartSuffix) w with hopen | hopen
  · rw [hopen]
    simp only
    -- the row is being transferred from here on, whether or not there is anything to stream
    have hleft := TransferModel.unsettled_transferring (TransferModel.entry_of_indexOfFile hrow).1 []
    exact (port_underway i).streamBodyTo _ _ (.open_ (h.exclusive.resolve_right hses₁) hses₁ hleft)
  · have hfull : w.NoRoom row := by
      refine .inr ?_
      rw [hopen]
    rw [hopen]
    exact hmark row _ hadm hfull

omit [Qt] in
theorem Underway.onBodyProgress (h : w.Underway) (i : ConnId) : (w.onBodyProgress i).Underway := by
  unfold World.onBodyProgress
  split
  · exact h
  · exact h.congr (.inl rfl) rfl rfl (TransferModel.alike_setFileTransferred _ _ _)

omit [Qt] in
theorem Underway.write (h : w.Underway) (i : ConnId) (f : FileId) (data : QByteArray) :
    (w.write i f data).2.Underway := by
  unfold World.write
  split <;> exact h.congr (.inl rfl) rfl rfl (.refl _)

theorem Underway.onHeadersReady (h : w.Underway) (hl : w.live i = true) (hb : (w.conns i).InBody)
    (hnew : w.uploads.lookup i = none) (hm : (w.conns i).method ≠ str "OPTIONS")
    (hroom : ∀ row, ¬ w.Strands i row) : (w.onHeadersReady i).Underway := by
  unfold World.onHeadersReady
  split
  · rename_i hpath
    refine h.handleUploadHeaders hl hb hnew hpath fun row hadm hfull => ?_
    by_contra hlast
    exact hroom row ⟨hadm, hm, hfull, hlast⟩
  · exact h

theorem Underway.onRequestReady (h : w.Underway) (i : ConnId) : (w.onRequestReady i).Underway := by
  unfold World.onRequestReady
  extract_lets path
  split
  · unfold handleInfo
    exact (port_underway i).respond _ _ _ h
  split
  · unfold handleRegister
    obtain ⟨devices, hdevices⟩ := registerPeer_eq (w.conns i).jsonBody (w.conns i).peerAddress w
    have hnoted : (w.registerPeer (w.conns i).jsonBody (w.conns i).peerAddress).2.Underway := by
      rw [hdevices]
      exact h.congr (.inl rfl) rfl rfl (.refl _)
    exact (port_underway i).respond _ _ _ hnoted
  split
  · rename_i hpath
    exact h.prepare hpath
  split
  · exact h.handleUploadFinished i
  split
  · exact h.handleCancel i
  · exact h.respond i 404

/-! ## Runs -/

/-- No upload is let in whose refusal settles the last row. -/
def Roomy (w : World) (e : Event) : Prop := ∀ i data, e = .readyRead i data →
  ∀ c, ((w.conns i).feed data).HeadRead c → ∀ row, ¬ (w.setConn i c).Strands i row

/-- Nothing is let in while no session is open. -/
theorem roomy_idle (h : w.sessionId = []) (e : Event) : w.Roomy e :=
  fun _ _ _ _ _ _ hstrands => hstrands.open_ h

/-- Whichever row is refused, another one is left. -/
theorem roomy_left (h : ∀ row, w.transfer.LeftBut row) (e : Event) : w.Roomy e :=
  fun _ _ _ _ _ row hstrands => hstrands.last (h row)

/-- While a segment is read. Until the head is read only the connection has changed. -/
def Fed (i : ConnId) (data : QByteArray) (w : World) (_ : QByteArray) (v : World) : Prop :=
  v.Underway ∧ ((v.conns i).state = .readingHeaders → v = (host i).modify (HttpConnection.feed data) w)

/-- Once the head has been read. -/
theorem Fed.body {data rest : QByteArray} (h : v.Underway)
    (hst : ((host i).get v).state = .readingBody) : Fed i data w rest v :=
  ⟨h, fun hhead => absurd (hst.symm.trans hhead) State.noConfusion⟩

theorem Fed.progressed {data rest : QByteArray} (h : v.Underway)
    (hst : ((host i).get v).state = .readingBody) : Fed i data w rest (v.onBodyProgress i) := by
  refine .body (h.onBodyProgress i) ?_
  change ((v.onBodyProgress i).conns i).state = _
  rw [conns_onBodyProgress]
  exact hst

omit [Qt] in
/-- Nothing but the connection has changed. -/
theorem Underway.setConn (h : w.Underway) (i : ConnId) (c : HttpConnection) :
    (w.setConn i c).Underway := h.congr (.inl rfl) rfl rfl (.refl _)

/-- A session loses its last row to no segment that is read. -/
theorem fed_rule (hinv : w.Inv) (hl : w.live i = true) (hc : (w.conns i).bodyComplete = false)
    {data : QByteArray} (he : w.Roomy (.readyRead i data)) : (host i).Rule (Fed i data w) Underway where
  get_bodyProgress s := congrFun (conns_onBodyProgress i s) i
  get_write f data s := congrFun (conns_write i f data s) i
  stop hI _ := hI.1
  turn := by
    intro s c hI hb ht
    refine .body (hI.1.setConn i c) ?_
    rw [Port.get_set]
    exact (ht.inBody hb).1
  take := by
    intro s n hI hb
    refine .body (hI.1.setConn i _) ?_
    rw [Port.get_modify]
    exact hb.1
  respond status payload contentType hI _ _ := (port_underway i).respond _ _ _ hI.1
  longHead hI _ _ _ := (port_underway i).respond _ _ _ hI.1
  keep := by
    intro s data hI hb _ _
    refine .progressed (hI.1.setConn i _) ?_
    rw [Port.get_modify]
    exact hb.1
  write := by
    intro s f data hI hb _ _ _
    refine .progressed ((hI.1.write i f data).setConn i _) ?_
    rw [Port.get_modify]
    change ((s.write i f data).2.conns i).state = _
    rw [conns_write]
    exact hb.1
  short := by
    intro s f data hI _ _ _ _
    exact (port_underway i).respond _ _ _ (hI.1.write i f data)
  badHead := by
    intro s c hI _
    exact (port_underway i).respond _ _ _ (hI.1.setConn i c)
  headers := by
    intro s c hI hread hm
    obtain rfl := hI.2 hread.1
    have hfed : ((w.conns i).feed data).HeadRead c := by
      rw [Port.get_modify] at hread
      exact hread
    have hset : (host i).set c ((host i).modify (HttpConnection.feed data) w) = w.setConn i c :=
      Port.set_set _ _ _ _
    obtain ⟨-, hinv', hlive, hb, hnew⟩ := (Reading.feed hc data).head hinv hl hread
    have hready := hI.1.setConn i c
    rw [show World.setConn i c _ = w.setConn i c from hset] at hinv' hlive hb hnew hready
    have hready' : ((w.setConn i c).onHeadersReady i).Underway := by
      refine hready.onHeadersReady hlive hb hnew ?_ (he i data rfl c hfed)
      rw [conns_setConn]
      exact hm
    have hheads := onHeadersReady_heads hinv' hlive hb hnew
    rw [hset]
    exact ⟨fun _ => hready', fun hbody =>
      ⟨.body hready' hbody, hheads.unread.bodyComplete.trans hb.2⟩⟩
  preflight := by
    intro s c hI _ _
    exact (port_underway i).respond _ _ _ (hI.1.setConn i c)

theorem Underway.readyRead (h : w.Underway) (hinv : w.Inv) (hl : w.live i = true)
    {data : QByteArray} (he : w.Roomy (.readyRead i data)) :
    ((host i).onReadyRead data w).Underway := by
  by_cases hlate : (w.conns i).state = .responded ∨ (w.conns i).bodyComplete = true
  · rw [Host.onReadyRead_late (host i) data hlate]
    exact h.setConn i _
  obtain ⟨hst, hc⟩ := not_or.1 hlate
  rw [Bool.not_eq_true] at hc
  have hfed : Fed i data w [] ((host i).modify (HttpConnection.feed data) w) :=
    ⟨h.setConn i _, fun _ => rfl⟩
  rcases (fed_rule hinv hl hc he).onReadyRead data hst hc hfed with
    ⟨-, hQ⟩ | ⟨s, hs, -, -, hr, ht⟩
  · exact hQ
  · rw [ht, hr]
    exact Underway.onRequestReady (hs.1.setConn i _) i

theorem Underway.step (h : w.Underway) (hinv : w.Inv) {e : Event} (he : w.Roomy e) :
    (w.step e).Underway := by
  unfold World.step
  have same : ∀ {v : World}, v.pending = w.pending → v.sessionId = w.sessionId →
      v.uploads = w.uploads → v.transfer = w.transfer → v.Underway := by
    intro v hp hs hu ht
    refine h.congr (.inl hp) hs hu ?_
    rw [ht]
    exact .refl _
  cases e with
  | connect address certificate =>
    simp only
    split
    · exact same rfl rfl rfl rfl
    · exact h
  | readyRead i data =>
    simp only
    split
    · rename_i hl
      exact h.readyRead hinv hl he
    · exact h
  | disconnected i =>
    simp only
    split
    · exact (port_underway i).hangUp h
    · exact h
  | idleTimeout i =>
    simp only
    split
    · exact (port_underway i).onIdleTimeout h
    · exact h
  | headerDeadline i =>
    simp only
    split
    · exact (port_underway i).onHeaderDeadline h
    · exact h
  | accept => exact h.accept
  | decline => exact h.decline
  | cancel => exact h.cancel
  | acceptTimeout =>
    simp only
    split
    · exact Underway.onAcceptTimeout (same rfl rfl rfl rfl)
    · exact h
  | sessionIdle =>
    simp only
    split
    · exact Underway.onSessionIdle (same rfl rfl rfl rfl)
    · exact h
  | startListening => exact h.startListening
  | stopListening => exact h.stopListening
  | setPort port => exact h.setPort port
  | setReceiveEnabled enabled => exact h.setReceiveEnabled enabled
  | otherFiles disk =>
    simp only
    split
    · exact same rfl rfl rfl rfl
    · exact h
  | _ => exact same rfl rfl rfl rfl

omit [Qt] in
theorem Start.underway (h : w.Start) : w.Underway := .over h.pending h.sessionId h.uploads

/-- In a run in which no upload is let in whose refusal settles the last row, a session that is open
has a row that waits or is being transferred. -/
theorem session_underway (h : Lib.ReachedBy system Roomy w) (hopen : w.sessionId ≠ []) :
    w.transfer.Unsettled := by
  have hkept : w.Inv ∧ w.Underway :=
    h.invariant (I := fun w => w.Inv ∧ w.Underway) (fun w hs => ⟨Start.inv hs, Start.underway hs⟩)
      fun w e hw he => ⟨(step_acts hw.1 e (permits_all w e)).inv hw.1, hw.2.step hw.1 he⟩
  exact hkept.2.left hopen

end

/-! ## A folder that cannot be written to any more -/

section

/-- Two files, of which the first is the one of `oneFile`. -/
def pairOfFiles : QJsonObject :=
  offer (str "laptop") (str "ab12") [
    (str "a", descriptor (str "a.txt") 5),
    (str "b", descriptor (str "b.txt") 5)]

local instance fullQt : Qt :=
  Ascii.qt [(Ascii.json oneFile, oneFile), (Ascii.json pairOfFiles, pairOfFiles)] []

/-- Once the session is open no file can be opened any more. -/
def fullEvents (offered : QJsonObject) : List Event := (helloEvents offered).take 3 ++ [
  .system { Env.obliging with opens := fun _ => false },
  .connect (str "10.0.0.2") none,
  .readyRead 1 helloUpload]

/-- The first of two files is refused, and the session goes on for the second. -/
theorem second_file_underway : ∃ w : World, w.sessionId ≠ [] ∧
    (w.conns 1).responses.map Response.status = [500] ∧ w.transfer.Unsettled := by
  have hok : Lib.Allowed system Roomy helloStart (fullEvents pairOfFiles) := by
    refine ⟨?_, ?_, ?_, nofun, nofun, ?_, trivial⟩
    · exact roomy_idle (by decide +kernel) _
    · exact roomy_idle (by decide +kernel) _
    · exact roomy_idle (by decide +kernel) _
    · refine roomy_left (fun row => ?_) _
      by_cases hrow : row = 0
      · exact ⟨1, by decide +kernel, by rw [hrow]; decide, by decide +kernel⟩
      · exact ⟨0, by decide +kernel, fun h => hrow h.symm, by decide +kernel⟩
  have hreached : Lib.ReachedBy system Roomy ((fullEvents pairOfFiles).foldl step helloStart) :=
    Lib.ReachedBy.run _ (.start helloStart_start) hok
  have hopen : ((fullEvents pairOfFiles).foldl step helloStart).sessionId ≠ [] := by
    decide +kernel
  exact ⟨_, hopen, by decide +kernel, session_underway hreached hopen⟩

/-- The only file is refused, and the session stays open with nothing left to do. -/
theorem refused_lingers : ∃ w : World, Lib.Reached system w ∧ w.sessionId ≠ [] ∧
    ¬ w.transfer.Unsettled ∧ (w.conns 1).responses.map Response.status = [500] := by
  have hsettled : ((fullEvents oneFile).foldl step helloStart).transfer.settled = true := by
    decide +kernel
  exact ⟨(fullEvents oneFile).foldl step helloStart,
    Lib.ReachedBy.run_any _ (.start helloStart_start),
    by decide +kernel, TransferModel.settled_iff.1 hsettled, by decide +kernel⟩

end

end World

end LocalSend
