import LocalSend.Send.Proof.Phases

/-!
# The files that went up

Every upload that is posted is a `Shipment`. What the service does on its own gives rows up (`Drift`),
and ships one row at most (`Moves`); apart from that a step begins a transfer, or takes a session or
a success from the receiver.
-/

set_option autoImplicit false

namespace LocalSend

/-- An upload: which row of its transfer, with which bytes. -/
structure Shipment where
  sessionId : QString
  fileId : QString
  size : Int
  row : Nat
  content : QByteArray

def QNetworkRequest.shipment? (r : QNetworkRequest) : Option Shipment :=
  match r.content, r.slot with
  | .fileBytes sessionId fileId _ size content, .uploaded row =>
    some ⟨sessionId, fileId, size, row, content⟩
  | _, _ => none

def Outbound.shipment? : Outbound → Option Shipment
  | .posted r => r.shipment?
  | _ => none

/-- The row is the same one, and goes on to no status but those of a row that has been given up. -/
structure FileEntry.Fades (f f' : FileEntry) : Prop where
  id : f'.id = f.id
  size : f'.size = f.size
  localPath : f'.localPath = f.localPath
  status : f'.status = f.status ∨ f'.status ≠ .waiting ∧ f'.status ≠ .done

theorem FileEntry.Fades.refl (f : FileEntry) : f.Fades f := ⟨rfl, rfl, rfl, .inl rfl⟩

theorem FileEntry.Fades.trans {f f' f'' : FileEntry} (h : f.Fades f') (h' : f'.Fades f'') :
    f.Fades f'' where
  id := h'.id.trans h.id
  size := h'.size.trans h.size
  localPath := h'.localPath.trans h.localPath
  status := by
    rcases h'.status with heq | hne
    · rw [heq]
      exact h.status
    · exact .inr hne

namespace Sender

def shipments (log : List LogEntry) : List Shipment := log.filterMap (·.what.shipment?)

/-- No file goes up, and none arrives. -/
structure Drift (w v : Sender) : Prop where
  count : v.transfer.fileCount = w.transfer.fileCount
  rows : ∀ row, (w.transfer.entry row).Fades (v.transfer.entry row)
  session : v.service.sessionId = w.service.sessionId ∨
    v.service.sessionId = [] ∧ v.service.busy = false
  busy : v.service.busy = true → w.service.busy = true
  files : v.files = w.files
  shipments : shipments v.log = shipments w.log

variable {u v w : Sender}

theorem Drift.refl (w : Sender) : Drift w w :=
  ⟨rfl, fun _ => .refl _, .inl rfl, id, rfl, rfl⟩

theorem Drift.trans (h : Drift u v) (h' : Drift v w) : Drift u w where
  count := h'.count.trans h.count
  rows row := (h.rows row).trans (h'.rows row)
  session := by
    rcases h'.session with heq | hover
    · rw [heq]
      exact h.session.imp id fun hover => ⟨hover.1, eq_false_of_ne_true fun hb => by
        cases hover.2.symm.trans (h'.busy hb)⟩
    · exact .inr hover
  busy hb := h.busy (h'.busy hb)
  files := h'.files.trans h.files
  shipments := h'.shipments.trans h.shipments

/-- The rows are left alone. -/
theorem Drift.same (ht : v.transfer.files = w.transfer.files)
    (hs : v.service.sessionId = w.service.sessionId ∨
      v.service.sessionId = [] ∧ v.service.busy = false)
    (hb : v.service.busy = true → w.service.busy = true) (hf : v.files = w.files)
    (hlog : Sender.shipments v.log = Sender.shipments w.log) : Drift w v where
  count := congrArg List.length ht
  rows row := by
    unfold TransferModel.entry
    rw [ht]
    exact .refl _
  session := hs
  busy := hb
  files := hf
  shipments := hlog

theorem Drift.undone (h : Drift w v)
    (hrows : ∀ row < w.transfer.fileCount, (w.transfer.entry row).status ≠ .done) :
    ∀ row < v.transfer.fileCount, (v.transfer.entry row).status ≠ .done := by
  intro row hrow
  rcases (h.rows row).status with heq | hne
  · rw [heq]
    exact hrows row (h.count ▸ hrow)
  · exact hne.2

theorem setState_drift (state : TransferState) (error : QString) (w : Sender) :
    Drift w (w.setState state error) :=
  .same (TransferModel.files_setState _ _ _) (.inl rfl) id rfl rfl

/-- A row is given up, or on its way. -/
theorem setFileStatus_drift (row : Nat) {status : FileStatus} (h : status ≠ .waiting ∧ status ≠ .done)
    (error : QString) (w : Sender) : Drift w (w.setFileStatus row status error) where
  count := TransferModel.fileCount_setFileStatus _ _ _ _
  rows row' := by
    change FileEntry.Fades _ ((w.transfer.setFileStatus row status error).entry row')
    rw [TransferModel.entry_setFileStatus]
    split
    · exact ⟨rfl, rfl, rfl, .inr h⟩
    · exact .refl _
  session := .inl rfl
  busy := id
  files := rfl
  shipments := rfl

theorem foldl_drift {α : Type} {f : Sender → α → Sender} (hf : ∀ w a, Drift w (f w a)) :
    ∀ (l : List α) (w : Sender), Drift w (l.foldl f w)
  | [], w => .refl w
  | a :: l, w => (hf w a).trans (foldl_drift hf l _)

theorem skipRows_drift (p : FileStatus → Bool) (w : Sender) : Drift w (w.skipRows p) := by
  refine foldl_drift (fun w row => ?_) _ w
  split
  · exact setFileStatus_drift row ⟨FileStatus.noConfusion, FileStatus.noConfusion⟩ [] w
  · exact .refl w

theorem takeTokens_drift (tokens : QJsonObject) (w : Sender) : Drift w (w.takeTokens tokens).2 := by
  obtain ⟨hcount, hrows, -⟩ := takeTokens_rows tokens w
  rw [takeTokens_eq]
  refine ⟨hcount, fun row => ?_, .inl rfl, id, rfl, rfl⟩
  by_cases hlt : row < w.transfer.fileCount
  · change FileEntry.Fades _ ((w.takeTokens tokens).2.transfer.entry row)
    rw [hrows row hlt]
    unfold taken
    split
    · exact ⟨rfl, rfl, rfl, .inr ⟨FileStatus.noConfusion, FileStatus.noConfusion⟩⟩
    · exact ⟨rfl, rfl, rfl, .inl rfl⟩
  · have hge := Nat.le_of_not_lt hlt
    have hge' : (w.takeTokens tokens).2.transfer.files.length ≤ row := Nat.le_trans (Nat.le_of_eq hcount) hge
    change FileEntry.Fades _ ((w.takeTokens tokens).2.transfer.entry row)
    unfold TransferModel.entry
    rw [List.getD_eq_default _ _ hge, List.getD_eq_default _ _ hge']
    exact .refl _

theorem generateToken_drift (w : Sender) : Drift w w.generateToken.2 :=
  .same rfl (.inl rfl) (fun hb => hb) rfl rfl

theorem writeHistory_drift (w : Sender) : Drift w w.writeHistory := by
  unfold writeHistory
  split
  · exact .refl w
  · have hid : Drift w (if w.service.sessionId = [] then w.generateToken
        else (w.service.sessionId, w)).2 := by
      split
      · exact generateToken_drift w
      · exact .refl w
    rcases hv : (if w.service.sessionId = [] then w.generateToken
      else (w.service.sessionId, w)) with ⟨token, v⟩
    rw [hv] at hid
    simp only
    split
    · exact hid
    · exact hid.trans (.same rfl (.inl rfl) (fun hb => hb) rfl rfl)

theorem leave_drift (status : QString) (files : Nat) (w : Sender) : Drift w (w.leave status files) :=
  .same rfl (.inr ⟨rfl, rfl⟩) (fun hb => by cases hb) rfl rfl

/-- Recording the history, or not, and the end of the transfer. -/
theorem record_drift (status : QString) (files : Nat) (w : Sender) :
    Drift w ((if w.transfer.completedCount > 0 then w.writeHistory else w).leave status files) := by
  split
  · exact (writeHistory_drift w).trans (leave_drift _ _ _)
  · exact leave_drift _ _ _

theorem failTransfer_drift (message : QString) (w : Sender) : Drift w (w.failTransfer message) := by
  unfold failTransfer
  extract_lets v
  have hclosed : Drift w w.closeCurrentFile := .same rfl (.inl rfl) id rfl rfl
  exact ((hclosed.trans (skipRows_drift _ _)).trans (setState_drift .failed message _)).trans
    (record_drift _ _ v)

theorem quit_drift (state : TransferState) (status : QString) (w : Sender) :
    Drift w (w.quit state status) :=
  (setState_drift state [] w).trans (.same rfl (.inl rfl) (fun hb => by cases hb) rfl rfl)

theorem forgetReply_drift (id : ReplyId) (w : Sender) : Drift w (w.forgetReply id) := by
  unfold forgetReply
  split
  · exact .same rfl (.inl rfl) (fun hb => hb) rfl rfl
  · exact .refl w

theorem settleCurrent_drift {status : FileStatus} (h : status ≠ .waiting ∧ status ≠ .done)
    (error : QString) (w : Sender) : Drift w (w.settleCurrent status error) := by
  unfold settleCurrent
  split
  · exact setFileStatus_drift _ h error w
  · exact .refl w

/-- What the service does on its own: rows are given up, and one may be shipped. -/
inductive Moves (w : Sender) : Sender → Prop
  | drift {v : Sender} : Drift w v → Moves w v
  | ship {u : Sender} {row : Nat} {content : QByteArray} {mimeType : QString} : Drift w u →
      u.service.busy = true → row < u.transfer.fileCount →
      (u.transfer.entry row).status = .waiting →
      u.files (u.transfer.entry row).localPath = some ⟨content, mimeType, true⟩ →
      Moves w (u.uploadRow row content)

theorem Moves.after (h : Moves v w) (hd : Drift u v) : Moves u w := by
  cases h with
  | drift hv => exact .drift (hd.trans hv)
  | ship hv hb hlt hs hf => exact .ship (hd.trans hv) hb hlt hs hf

section
variable [Qt]

theorem completeTransfer_drift (w : Sender) : Drift w w.completeTransfer := by
  unfold completeTransfer
  extract_lets done total v peer u
  have hv : Drift w v := by
    simp only [v]
    split
    · exact setState_drift _ _ w
    · split <;> exact setState_drift _ _ w
  have hu : Drift v u := by
    simp only [u]
    split
    · exact .same rfl (.inl rfl) (fun hb => hb) rfl rfl
    · exact .refl v
  exact ((hv.trans hu).trans (writeHistory_drift u)).trans (leave_drift _ _ _)

theorem startRows_moves : ∀ (rows : List Nat) (w : Sender), w.service.busy = true →
    (∀ row ∈ rows, row < w.transfer.fileCount) → Moves w (startRows rows w)
  | [], w, _, _ => .drift (completeTransfer_drift w)
  | row :: rows, w, hb, hrows => by
    have hrest : ∀ row' ∈ rows, row' < w.transfer.fileCount :=
      fun row' hr => hrows row' (List.mem_cons_of_mem _ hr)
    unfold startRows
    split
    · exact startRows_moves rows w hb hrest
    · rename_i hwaiting
      extract_lets s v
      have hv : Drift w v := .same rfl (.inl rfl) (fun hb => hb) rfl rfl
      split
      · rename_i content mimeType hfile
        exact .ship hv hb (hrows row List.mem_cons_self) (not_not.1 hwaiting) hfile
      · have hfailed : Drift v (v.setFileStatus row .failed (str "Could not open the file")) :=
          setFileStatus_drift row ⟨FileStatus.noConfusion, FileStatus.noConfusion⟩ _ v
        refine (startRows_moves rows (v.setFileStatus row .failed (str "Could not open the file")) hb
          fun row' hr => ?_).after (hv.trans hfailed)
        rw [hfailed.count]
        exact hrest row' hr

theorem startNextFile_moves (hb : w.service.busy = true) : Moves w w.startNextFile := by
  unfold startNextFile
  extract_lets v next
  have hv : Drift w v := .same rfl (.inl rfl) (fun hb => hb) rfl rfl
  split
  · exact .drift hv
  · exact (startRows_moves _ v hb fun row hr =>
      List.mem_range.1 (List.mem_of_mem_drop hr)).after hv

/-- What becomes of an answer that takes some of the files, from the session it names. -/
theorem onAccepted_moves (hb : w.service.busy = true) (body : QByteArray) :
    Drift w (w.onAccepted body) ∨ ∃ response sessionId, Qt.fromJson body = some response ∧
      (response.value (str "sessionId")).toString [] = sessionId ∧
      Moves { w with service := { w.service with sessionId := sessionId } } (w.onAccepted body) := by
  unfold onAccepted
  extract_lets unreadable
  split
  · exact .inl (failTransfer_drift _ w)
  · rename_i response hresponse
    extract_lets sessionId tokens v
    refine .inr ⟨response, sessionId, hresponse, rfl, ?_⟩
    change Moves v _
    split
    · exact .drift (failTransfer_drift _ v)
    · have ht := takeTokens_drift tokens v
      have hs := takeTokens_service tokens v
      rcases hu : v.takeTokens tokens with ⟨accepted, u⟩
      rw [hu] at ht hs
      have hub : u.service.busy = true := by rw [hs]; exact hb
      simp only
      split
      · exact .drift (ht.trans (quit_drift _ _ u))
      · have hactive := ht.trans (setState_drift .active [] u)
        refine Moves.after (v := { u.setState .active [] with
          service := { u.service with currentRow := none } }) ?_
          (hactive.trans (.same rfl (.inl rfl) (fun hb => hb) rfl rfl))
        exact startNextFile_moves hub

theorem onPrepareFinished_moves (hb : w.service.busy = true) (id : ReplyId) (error : Bool)
    (status : Nat) (body : QByteArray) :
    Drift w (w.onPrepareFinished id error status body) ∨
      status = 200 ∧ ∃ response sessionId, Qt.fromJson body = some response ∧
        (response.value (str "sessionId")).toString [] = sessionId ∧
        ∃ u, Drift w u ∧ Moves { u with service := { u.service with sessionId := sessionId } }
          (w.onPrepareFinished id error status body) := by
  unfold onPrepareFinished
  extract_lets v aliasName
  have hv : Drift w v := forgetReply_drift id w
  have hvb : v.service.busy = true := (forgetReply_busy id w).trans hb
  have fails : ∀ message, Drift w (v.failTransfer message) :=
    fun message => hv.trans (failTransfer_drift message v)
  split
  · exact .inl hv
  · split
    · exact .inl (fails _)
    · split
      · rcases onAccepted_moves hvb body with hd | ⟨response, sessionId, hr, hs, hm⟩
        · exact .inl (hv.trans hd)
        · exact .inr ⟨rfl, response, sessionId, hr, hs, v, hv, hm⟩
      · exact .inl (hv.trans (quit_drift _ _ v))
      · exact .inl ((hv.trans (setState_drift .idle [] v)).trans
          (.same rfl (.inl rfl) (fun hb => hb) rfl rfl))
      · have hsignal : Drift v (v.signal .declined) := .same rfl (.inl rfl) (fun hb => hb) rfl rfl
        exact .inl ((hv.trans hsignal).trans (quit_drift _ _ _))
      · exact .inl (fails _)
      · exact .inl (fails _)
      · exact .inl (fails _)

/-- What becomes of the answer to an upload: a success makes the current row done. -/
theorem onUploadFinished_moves (hb : w.service.busy = true) (id : ReplyId) (error : Bool)
    (status : Nat) (errorString : QString) :
    Moves w (w.onUploadFinished id error status errorString) ∨
      200 ≤ status ∧ status < 300 ∧ error = false ∧ ∃ u, Drift w u ∧
        u.service = { w.service with reply := u.service.reply } ∧
        Moves (u.settleCurrent .done []) (w.onUploadFinished id error status errorString) := by
  unfold onUploadFinished
  extract_lets v
  have hv : Drift w v := forgetReply_drift id w
  have hvb : v.service.busy = true := (forgetReply_busy id w).trans hb
  have failed : ∀ error, Drift w (v.settleCurrent .failed error) := fun error =>
    hv.trans (settleCurrent_drift ⟨FileStatus.noConfusion, FileStatus.noConfusion⟩ error v)
  split
  · exact .inl (.drift hv)
  · split
    · rename_i hsuccess
      have hservice : v.service = { w.service with reply := v.service.reply } := by
        simp only [v]
        unfold forgetReply
        split <;> rfl
      refine .inr ⟨hsuccess.2.1, hsuccess.2.2, eq_false_of_ne_true hsuccess.1, v, hv, hservice, ?_⟩
      refine startNextFile_moves ?_
      rw [settleCurrent_service]
      exact hvb
    · split
      · exact .inl (.drift ((failed _).trans (failTransfer_drift _ _)))
      · refine .inl ((startNextFile_moves ?_).after (failed _))
        rw [settleCurrent_service]
        exact hvb

omit [Qt] in
theorem abortReply_drift (w : Sender) : Drift w w.abortReply := by
  unfold abortReply
  split
  · exact .same rfl (.inl rfl) (fun hb => hb) rfl rfl
  · exact .same rfl (.inl rfl) (fun hb => hb) rfl rfl

omit [Qt] in
theorem cancel_drift (w : Sender) : Drift w w.cancel := by
  unfold cancel
  split
  · exact .refl w
  · extract_lets v
    have hclosed : Drift w w.abortReply.closeCurrentFile :=
      (abortReply_drift w).trans (.same rfl (.inl rfl) (fun hb => hb) rfl rfl)
    have hnotified : Drift w w.abortReply.closeCurrentFile.notifyPeerCancelled := by
      refine hclosed.trans ?_
      unfold notifyPeerCancelled
      split
      · exact .refl _
      · exact { Drift.refl w.abortReply.closeCurrentFile with
          shipments := by
            unfold shipments
            exact (List.filterMap_append ..).trans (List.append_nil _) }
    exact ((hnotified.trans (skipRows_drift _ _)).trans (setState_drift .cancelled [] _)).trans
      (record_drift _ _ v)

end

end Sender

end LocalSend
