import LocalSend.Receive.Proof.Preserved

/-!
# What requests leave alone

The random source, the clock and the table of PIN attempts are the same after whatever the service
does (`Steady`), but for what a prepare-upload does to the table.
-/

set_option autoImplicit false

namespace LocalSend.World

/-- The source, the clock and the table of attempts are as they were. -/
structure Steady (w v : World) : Prop where
  random : v.random = w.random
  now : v.now = w.now
  attempts : v.pinAttempts = w.pinAttempts

variable {u w v : World} {i : ConnId}

theorem Steady.refl (w : World) : Steady w w := ⟨rfl, rfl, rfl⟩

theorem Steady.trans (h : Steady u v) (h' : Steady v w) : Steady u w :=
  ⟨h'.random.trans h.random, h'.now.trans h.now, h'.attempts.trans h.attempts⟩

theorem foldl_steady {α : Type} {f : World → α → World} (hf : ∀ w a, Steady w (f w a)) :
    ∀ (l : List α) (w : World), Steady w (l.foldl f w)
  | [], w => .refl w
  | a :: l, w => (hf w a).trans (foldl_steady hf l _)

/-! ## Files and rows -/

theorem closeFile_steady (f : FileId) (w : World) : Steady w (w.closeFile f) := by
  obtain ⟨d, hd, -⟩ := closeFile_eq f w
  rw [hd]
  exact ⟨rfl, rfl, rfl⟩

theorem removeFile_steady (path : QString) (w : World) : Steady w (w.removeFile path) := by
  obtain ⟨d, hd⟩ := removeFile_eq path w
  rw [hd]
  exact ⟨rfl, rfl, rfl⟩

theorem write_steady (i : ConnId) (f : FileId) (data : QByteArray) (w : World) :
    Steady w (w.write i f data).2 := by
  unfold World.write
  split <;> exact ⟨rfl, rfl, rfl⟩

theorem onBodyProgress_steady (i : ConnId) (w : World) : Steady w (w.onBodyProgress i) := by
  unfold onBodyProgress
  split <;> exact ⟨rfl, rfl, rfl⟩

theorem closeUpload_steady (i : ConnId) (keep : Bool) (w : World) :
    Steady w (w.closeUpload i keep) := by
  unfold closeUpload
  split
  · exact .refl w
  · rename_i u _
    have herased : Steady w { w with uploads := w.uploads.erase i } := ⟨rfl, rfl, rfl⟩
    have hclosed := herased.trans (closeFile_steady u.file _)
    extract_lets w₁
    split
    · exact hclosed
    · exact hclosed.trans (removeFile_steady _ _)

theorem skipRow_steady (w : World) (row : Nat) : Steady w (w.skipRow row) := by
  unfold skipRow
  split <;> exact ⟨rfl, rfl, rfl⟩

theorem Parted.steady {r : Response} (h : Parted i r w v) : Steady w v := by
  obtain ⟨c, -, -, rfl | rfl⟩ := h
  · exact ⟨rfl, rfl, rfl⟩
  · obtain ⟨p, timer, t, heq, -⟩ := onPendingClosed_eq i w
    rw [heq]
    exact ⟨rfl, rfl, rfl⟩

theorem cutOff_steady (w : World) (i : ConnId) : Steady w (w.cutOff i) := by
  unfold cutOff
  extract_lets row w₁ w₂
  clear_value row
  have h₁ : Steady w w₁ := closeUpload_steady i false w
  have h₂ : Steady w w₂ := by
    cases row
    · exact h₁
    · exact h₁.trans ⟨rfl, rfl, rfl⟩
  exact h₂.trans (parted_respond w₂ i 500 [] jsonType).steady

section
variable [Qt]

/-! ## The end of a session -/

theorem settleSession_steady (status : QString) (w : World) : Steady w (w.settleSession status) := by
  unfold settleSession
  extract_lets w₁ w₂ w₃ w₄ destination
  have h₁ : Steady w w₁ := foldl_steady skipRow_steady _ w
  have h₂ : Steady w w₂ := by
    obtain ⟨t, ht⟩ : ∃ t, w₂ = { w₁ with transfer := t } := setOutcome_frame w₁ status
    rw [ht]
    exact h₁.trans ⟨rfl, rfl, rfl⟩
  have h₃ : Steady w w₃ := by
    simp only [w₃]
    unfold rememberPeer
    split
    · exact h₂.trans ⟨rfl, rfl, rfl⟩
    · exact h₂
  have h₄ : Steady w w₄ := by
    simp only [w₄]
    unfold writeHistory
    split
    · exact h₃.trans ⟨rfl, rfl, rfl⟩
    · exact h₃
  exact h₄.trans ⟨rfl, rfl, rfl⟩

theorem finishSession_steady (status : QString) (w : World) : Steady w (w.finishSession status) := by
  unfold finishSession
  extract_lets hadSession w₁ w₂ w₃
  have h₁ : Steady w w₁ := ⟨rfl, rfl, rfl⟩
  have h₂ : Steady w w₂ := h₁.trans (foldl_steady cutOff_steady w₁.uploads.keys w₁)
  have h₃ : Steady w w₃ := by
    simp only [w₃]
    split
    · exact (h₂.trans (parted_respond w₂ _ 403 [] jsonType).steady).trans ⟨rfl, rfl, rfl⟩
    · exact h₂
  split
  · exact .refl w
  split
  · exact h₃.trans ⟨rfl, rfl, rfl⟩
  · exact h₃.trans (settleSession_steady status w₃)

omit [Qt] in
theorem onPendingClosed_steady (i : ConnId) (w : World) : Steady w (w.onPendingClosed i) := by
  obtain ⟨p, timer, t, heq, -⟩ := onPendingClosed_eq i w
  rw [heq]
  exact ⟨rfl, rfl, rfl⟩

theorem onUploadClosed_steady (i : ConnId) (w : World) : Steady w (w.onUploadClosed i) := by
  unfold onUploadClosed
  cases hu : w.uploads.lookup i with
  | none => exact .refl w
  | some u =>
    obtain ⟨d, hd⟩ := dropUpload_eq i u (str "The sender disconnected") w
    have hdropped : Steady w (w.dropUpload i u (str "The sender disconnected")) := by
      rw [hd]
      exact ⟨rfl, rfl, rfl⟩
    simp only
    split
    · exact hdropped.trans (finishSession_steady _ _)
    · exact hdropped

theorem port_steady (u : World) (i : ConnId) : (port i).Preserves (Steady u) where
  set _ _ h := h.trans ⟨rfl, rfl, rfl⟩
  closed h := (h.trans (onPendingClosed_steady i _)).trans (onUploadClosed_steady i _)

theorem respond_steady (i : ConnId) (status : Nat) (w : World) : Steady w (w.respond i status) :=
  (port_steady w i).respond _ _ _ (.refl w)

/-! ## Requests -/

theorem accept_steady (w : World) : Steady w w.accept := by
  unfold accept
  split
  · exact .refl w
  · rename_i i _
    obtain ⟨directory, d, heq⟩ := prepareDirectory_eq w
    rw [heq]
    have hready : Steady w { w with disk := d } := ⟨rfl, rfl, rfl⟩
    simp only
    split
    · exact (hready.trans (parted_respond _ i 500 [] jsonType).steady).trans ⟨rfl, rfl, rfl⟩
    · obtain ⟨id, n, t, tokens, hopen, -⟩ := openSession_eq { w with disk := d } i directory
      generalize World.openSession i directory { w with disk := d } = u at hopen
      have hopened : Steady w u := by
        rw [hopen]
        exact ⟨rfl, rfl, rfl⟩
      have hparted := parted_respond u i 200 (Qt.toJson u.acceptResponse) jsonType
      exact (hopened.trans hparted.steady).trans ⟨rfl, rfl, rfl⟩

omit [Qt] in
theorem decline_steady (w : World) : Steady w w.decline := by
  unfold decline
  split
  · exact .refl w
  · exact (parted_respond w _ 403 [] jsonType).steady.trans ⟨rfl, rfl, rfl⟩

omit [Qt] in
theorem onAcceptTimeout_steady (w : World) : Steady w w.onAcceptTimeout := by
  unfold onAcceptTimeout
  split
  · exact .refl w
  · exact (parted_respond w _ 403 [] jsonType).steady.trans ⟨rfl, rfl, rfl⟩

theorem handleUploadHeaders_steady (i : ConnId) (w : World) :
    Steady w (w.handleUploadHeaders i) := by
  unfold handleUploadHeaders
  extract_lets sessionId fileId token
  split
  · exact respond_steady i 400 w
  split
  · exact respond_steady i 409 w
  split
  · exact respond_steady i 403 w
  split
  · exact respond_steady i 400 w
  · rename_i row _
    extract_lets finalPath
    have hmark : ∀ (v : World) (error : QString), Steady v (v.setFileStatus row .failed error) :=
      fun _ _ => ⟨rfl, rfl, rfl⟩
    split
    · exact respond_steady i 200 w
    split
    · exact (hmark w _).trans (respond_steady i 500 _)
    obtain ⟨ok, d, hopen⟩ := openFile_eq (finalPath ++ PartSuffix) w
    have hopened : Steady w { w with disk := d } := ⟨rfl, rfl, rfl⟩
    rw [hopen]
    cases ok
    · exact (hopened.trans (hmark _ _)).trans (respond_steady i 500 _)
    · have hbegun : Steady w (World.beginUpload i row finalPath { w with disk := d }) :=
        ⟨rfl, rfl, rfl⟩
      exact (port_steady w i).streamBodyTo _ _ hbegun

theorem settleUpload_steady (i : ConnId) (u : Upload) (w : World) :
    Steady w (settleUpload i u w).2 := by
  obtain ⟨d, t, l, heq⟩ := settleUpload_eq i u w
  rw [heq]
  exact ⟨rfl, rfl, rfl⟩

theorem handleUploadFinished_steady (i : ConnId) (w : World) :
    Steady w (w.handleUploadFinished i) := by
  unfold handleUploadFinished
  cases hu : w.uploads.lookup i with
  | none =>
    simp only
    split
    · exact .refl w
    · exact respond_steady i 400 w
  | some u =>
    have herased : Steady w { w with uploads := w.uploads.erase i } := ⟨rfl, rfl, rfl⟩
    have hsettled := herased.trans (settleUpload_steady i u _)
    simp only
    generalize settleUpload i u { w with uploads := w.uploads.erase i } = settled at hsettled ⊢
    obtain ⟨status, v⟩ := settled
    have hwatched : Steady w { v.respond i status with idleTimer := true } :=
      (hsettled.trans (respond_steady i status v)).trans ⟨rfl, rfl, rfl⟩
    simp only
    split
    · exact hwatched.trans (finishSession_steady _ _)
    · exact hwatched

theorem handleCancel_steady (i : ConnId) (w : World) : Steady w (w.handleCancel i) := by
  unfold handleCancel
  extract_lets sessionId w₁
  have h₁ : Steady w w₁ := respond_steady i 200 w
  split
  · exact h₁.trans ⟨rfl, rfl, rfl⟩
  split
  · exact h₁.trans (finishSession_steady _ _)
  · exact h₁

theorem cancel_steady (w : World) : Steady w w.cancel := by
  unfold cancel
  split
  · exact decline_steady w
  split
  · exact .refl w
  · refine Steady.trans ?_ (finishSession_steady _ _)
    unfold notifyPeerCancelled
    split <;> exact ⟨rfl, rfl, rfl⟩

theorem onSessionIdle_steady (w : World) : Steady w w.onSessionIdle := by
  unfold onSessionIdle
  split
  · exact .refl w
  · exact finishSession_steady _ w

omit [Qt] in
theorem startListening_steady (w : World) : Steady w w.startListening := by
  unfold startListening
  split
  · exact .refl w
  · extract_lets server port
    split <;> exact ⟨rfl, rfl, rfl⟩

theorem stopListening_steady (w : World) : Steady w w.stopListening := by
  unfold stopListening
  split
  · exact .refl w
  · exact (finishSession_steady _ w).trans ⟨rfl, rfl, rfl⟩

theorem setPort_steady (port : Int) (w : World) : Steady w (w.setPort port) := by
  unfold setPort
  split
  · exact .refl w
  · rename_i settings _
    have hset : Steady w { w with settings := settings } := ⟨rfl, rfl, rfl⟩
    unfold onSettingsChanged
    split
    · exact hset
    · exact (hset.trans (stopListening_steady _)).trans (startListening_steady _)

theorem setReceiveEnabled_steady (enabled : Bool) (w : World) :
    Steady w (w.setReceiveEnabled enabled) := by
  unfold setReceiveEnabled
  split
  · exact .refl w
  · rename_i settings _
    have hset : Steady w { w with settings := settings } := ⟨rfl, rfl, rfl⟩
    extract_lets w₁
    split
    · exact (hset.trans (startListening_steady _)).trans ⟨rfl, rfl, rfl⟩
    · exact (hset.trans (stopListening_steady _)).trans ⟨rfl, rfl, rfl⟩

theorem listens_steady (u : World) (i : ConnId) : Listens i (Steady u) :=
  { port_steady u i with
    write := fun f data _ h => h.trans (write_steady i f data _)
    headers := fun h => h.trans (handleUploadHeaders_steady i _)
    progress := fun h => h.trans (onBodyProgress_steady i _) }

/-- Every request but a prepare-upload. -/
theorem onRequestReady_steady (i : ConnId) (w : World)
    (hpath : (w.conns i).path ≠ endpoint Protocol.PathPrepareUpload) :
    Steady w (w.onRequestReady i) := by
  unfold onRequestReady
  extract_lets path
  split
  · exact (port_steady w i).respond _ _ _ (.refl w)
  split
  · obtain ⟨devices, hdevices⟩ := registerPeer_eq (w.conns i).jsonBody (w.conns i).peerAddress w
    have hnoted : Steady w (w.registerPeer (w.conns i).jsonBody (w.conns i).peerAddress).2 := by
      rw [hdevices]
      exact ⟨rfl, rfl, rfl⟩
    exact (port_steady w i).respond _ _ _ hnoted
  split
  · exact handleUploadFinished_steady i w
  split
  · exact handleCancel_steady i w
  · exact respond_steady i 404 w

/-- Every event but a segment and the clock. -/
theorem step_steady {e : Event} (hread : ∀ i data, e ≠ .readyRead i data)
    (htick : ∀ milliseconds, e ≠ .tick milliseconds) (w : World) : Steady w (w.step e) := by
  cases e with
  | readyRead i data => exact absurd rfl (hread i data)
  | tick milliseconds => exact absurd rfl (htick milliseconds)
  | connect address certificate =>
    simp only [World.step]
    split
    · exact ⟨rfl, rfl, rfl⟩
    · exact .refl w
  | disconnected i =>
    simp only [World.step]
    split
    · exact (port_steady w i).hangUp (.refl w)
    · exact .refl w
  | idleTimeout i =>
    simp only [World.step]
    split
    · exact (port_steady w i).onIdleTimeout (.refl w)
    · exact .refl w
  | headerDeadline i =>
    simp only [World.step]
    split
    · exact (port_steady w i).onHeaderDeadline (.refl w)
    · exact .refl w
  | accept => exact accept_steady w
  | decline => exact decline_steady w
  | cancel => exact cancel_steady w
  | acceptTimeout =>
    simp only [World.step]
    split
    · have hstopped : Steady w { w with acceptTimer := false } := ⟨rfl, rfl, rfl⟩
      exact hstopped.trans (onAcceptTimeout_steady _)
    · exact .refl w
  | sessionIdle =>
    simp only [World.step]
    split
    · have hstopped : Steady w { w with idleTimer := false } := ⟨rfl, rfl, rfl⟩
      exact hstopped.trans (onSessionIdle_steady _)
    · exact .refl w
  | startListening => exact startListening_steady w
  | stopListening => exact stopListening_steady w
  | setPort port => exact setPort_steady port w
  | setReceiveEnabled enabled => exact setReceiveEnabled_steady enabled w
  | otherFiles disk =>
    simp only [World.step]
    split
    · exact ⟨rfl, rfl, rfl⟩
    · exact .refl w
  | _ => exact ⟨rfl, rfl, rfl⟩

end

end LocalSend.World
