import LocalSend.Send.Proof.Emits

/-!
# What is under way of a transfer

`Sender.Tidy`: of the requests of a transfer, only the one whose end is waited for is under way, and
when that is an upload, the current row is the row it was posted for. This lasts as long as the PIN
is submitted only when nothing is waited for (`Patient`): `submitPin` posts whatever is under way.
-/

set_option autoImplicit false

namespace LocalSend

/-- A request meets its server, or is finished. -/
def SenderEvent.isReply : SenderEvent → Bool
  | .connects .. | .answered .. | .fails .. => true
  | _ => false

namespace Sender

/-- The PIN comes when nothing is waited for, as after `pinRequired`. -/
def Patient (w : Sender) : SenderEvent → Prop
  | .submitPin pin => w.service.busy = true → pin ≠ [] → w.service.reply = none
  | _ => True

/-- The request uploads the current row, with the id and the size of its file, in the session in
force. -/
structure Names (w : Sender) (r : QNetworkRequest) (row : Nat) : Prop where
  current : w.service.currentRow = some row
  bound : row < w.transfer.fileCount
  file : ∃ token bytes, r.content = .fileBytes w.service.sessionId (w.transfer.entry row).id token
    (w.transfer.entry row).size bytes

structure Tidy (w : Sender) : Prop where
  fresh : ∀ id, w.nextReply ≤ id → w.replies id = none
  waited : ∀ id r, w.replies id = some r → r.request.slot.isTransfer = true →
    w.service.reply = some id ∧ w.service.busy = true
  lasting : w.service.busy = true → w.service.cancelled = false
  row : ∀ id r row, w.replies id = some r → r.request.slot = .uploaded row → w.Names r.request row
  file : w.service.currentFile ≠ none →
    ∃ id r row, w.replies id = some r ∧ r.request.slot = .uploaded row

/-- No request of a transfer is under way. -/
structure Rests (w : Sender) : Prop where
  fresh : ∀ id, w.nextReply ≤ id → w.replies id = none
  none : ∀ id r, w.replies id = some r → r.request.slot.isTransfer = false

variable {w v : Sender} {id : ReplyId} {r : QNetworkReply}

theorem Names.congr {q : QNetworkRequest} {row : Nat} (h : w.Names q row)
    (hrow : v.service.currentRow = w.service.currentRow)
    (hsession : v.service.sessionId = w.service.sessionId)
    (ht : v.transfer.declared = w.transfer.declared) : v.Names q row where
  current := hrow.trans h.current
  bound := by rw [TransferModel.fileCount_congr ht]; exact h.bound
  file := by
    rw [TransferModel.size_congr ht, TransferModel.id_congr ht, hsession]
    exact h.file

theorem isTransfer_of_uploaded {row : Nat} (h : r.request.slot = .uploaded row) :
    r.request.slot.isTransfer = true := by rw [h]; rfl

@[simp] theorem setReply_self (id : ReplyId) (r : Option QNetworkReply) (w : Sender) :
    (w.setReply id r).replies id = r := Function.update_self _ _ _

theorem setReply_ne {j : ReplyId} (h : j ≠ id) (r : Option QNetworkReply) (w : Sender) :
    (w.setReply id r).replies j = w.replies j := Function.update_of_ne h _ _

@[simp] theorem post_self (q : QNetworkRequest) (w : Sender) :
    (w.post q).replies w.nextReply = some { request := q } := Function.update_self _ _ _

theorem post_ne (h : id ≠ w.nextReply) (q : QNetworkRequest) :
    (w.post q).replies id = w.replies id := Function.update_of_ne h _ _

/-! ## Nothing under way -/

theorem Rests.noted (h : w.Rests) (hv : Noted w v) : v.Rests where
  fresh id hid := by
    rw [hv.replies]
    rw [hv.nextReply] at hid
    exact h.fresh id hid
  none id r hr := h.none id r (by rwa [hv.replies] at hr)

theorem Rests.tidy (h : w.Rests) (hf : w.service.currentFile = Option.none)
    (hc : w.service.busy = true → w.service.cancelled = false) : w.Tidy where
  fresh := h.fresh
  waited id r hr ht := by cases (h.none id r hr).symm.trans ht
  lasting := hc
  row id r row hr hs := by cases (h.none id r hr).symm.trans (isTransfer_of_uploaded hs)
  file hne := absurd hf hne

/-- The transfer is left, or goes on without a request under way. -/
theorem Rests.tidy_noted (h : w.Rests) (hv : Noted w v)
    (hf : v.service.currentFile = Option.none)
    (hc : w.service.busy = true → w.service.cancelled = false) : v.Tidy := by
  refine (h.noted hv).tidy hf fun hb => hv.cancelled.trans (hc ?_)
  rcases hv.busy with hbusy | hbusy
  · exact hbusy.symm.trans hb
  · cases hb.symm.trans hbusy

/-- Where nothing is waited for, nothing is under way. -/
theorem Tidy.rests (h : w.Tidy) (hr : w.service.reply = none ∨ w.service.busy = false) :
    w.Rests where
  fresh := h.fresh
  none id r hid := by
    refine eq_false_of_ne_true fun ht => ?_
    obtain ⟨hreply, hbusy⟩ := h.waited id r hid ht
    rcases hr with hr | hr
    · cases hr.symm.trans hreply
    · cases hr.symm.trans hbusy

theorem Tidy.closed (h : w.Tidy) (hw : w.Rests) : w.service.currentFile = none := by
  by_contra hne
  obtain ⟨id, r, row, hr, hs⟩ := h.file hne
  cases (hw.none id r hr).symm.trans (isTransfer_of_uploaded hs)

/-- What is waited for is finished. -/
theorem Tidy.finished (h : w.Tidy) (hid : w.service.reply = some id) :
    (w.setReply id none).Rests where
  fresh j hj := by
    by_cases hne : j = id
    · subst hne
      exact setReply_self _ _ _
    · exact (setReply_ne hne _ _).trans (h.fresh j hj)
  none j q hq := by
    refine eq_false_of_ne_true fun hq' => ?_
    by_cases hne : j = id
    · subst hne
      rw [setReply_self] at hq
      cases hq
    · rw [setReply_ne hne] at hq
      exact hne (Option.some.inj (hid.symm.trans (h.waited j q hq hq').1)).symm

/-- A request of something else is finished. -/
theorem Tidy.drop (h : w.Tidy) (hr : w.replies id = some r)
    (ht : r.request.slot.isTransfer = false) : (w.setReply id none).Tidy := by
  have hback : ∀ {j q}, (w.setReply id none).replies j = some q → w.replies j = some q := by
    intro j q hq
    by_cases hne : j = id
    · subst hne
      rw [setReply_self] at hq
      cases hq
    · rwa [setReply_ne hne] at hq
  refine ⟨fun j hj => ?_, fun j q hq => h.waited j q (hback hq), h.lasting,
    fun j q row hq hs => (h.row j q row (hback hq) hs).congr rfl rfl rfl, fun hne => ?_⟩
  · by_cases hne : j = id
    · subst hne
      exact setReply_self _ _ _
    · exact (setReply_ne hne _ _).trans (h.fresh j hj)
  · obtain ⟨j, q, row, hq, hs⟩ := h.file hne
    refine ⟨j, q, row, (setReply_ne ?_ _ _).trans hq, hs⟩
    rintro rfl
    obtain rfl := Option.some.inj (hr.symm.trans hq)
    cases ht.symm.trans (isTransfer_of_uploaded hs)

/-- Something else is posted. -/
theorem Rests.post {q : QNetworkRequest} (h : w.Rests) (hq : q.slot.isTransfer = false) :
    (w.post q).Rests where
  fresh id hid := (post_ne (Nat.ne_of_gt hid) q).trans (h.fresh id (Nat.le_of_succ_le hid))
  none id r hr := by
    by_cases hid : id = w.nextReply
    · subst hid
      rw [post_self] at hr
      cases hr
      exact hq
    · exact h.none id r ((post_ne hid q).symm.trans hr)

/-- The next request of the transfer is posted. -/
theorem Rests.postToPeer {content : Content} {slot : ReplySlot} (h : w.Rests)
    (hb : w.service.busy = true) (hc : w.service.cancelled = false)
    (hrow : ∀ row, slot = .uploaded row →
      w.Names (requestTo w.service.peer content slot) row)
    (hf : w.service.currentFile ≠ Option.none → ∃ row, slot = .uploaded row) :
    (w.postToPeer content slot).Tidy := by
  have hnew : (w.postToPeer content slot).replies w.nextReply =
      some { request := requestTo w.service.peer content slot } := Function.update_self _ _ _
  have hold : ∀ {id : ReplyId}, id ≠ w.nextReply →
      (w.postToPeer content slot).replies id = w.replies id :=
    fun hid => Function.update_of_ne hid _ _
  have hcases : ∀ {id r}, (w.postToPeer content slot).replies id = some r →
      r.request.slot.isTransfer = true →
        id = w.nextReply ∧ r.request = requestTo w.service.peer content slot := by
    intro id r hr ht
    by_cases hid : id = w.nextReply
    · subst hid
      obtain rfl := Option.some.inj (hnew.symm.trans hr)
      exact ⟨rfl, rfl⟩
    · rw [hold hid] at hr
      cases (h.none id r hr).symm.trans ht
  refine ⟨fun id hid => ?_, fun id r hr ht => ?_, fun _ => hc, fun id r row hr hs => ?_,
    fun hne => ?_⟩
  · rw [hold (Nat.ne_of_gt hid)]
    exact h.fresh id (Nat.le_of_succ_le hid)
  · obtain ⟨rfl, -⟩ := hcases hr ht
    exact ⟨rfl, hb⟩
  · obtain ⟨-, hq⟩ := hcases hr (isTransfer_of_uploaded hs)
    rw [hq] at hs ⊢
    exact (hrow row hs).congr rfl rfl rfl
  · obtain ⟨row, hs⟩ := hf hne
    exact ⟨w.nextReply, _, row, hnew, hs⟩

/-! ## From file to file -/

theorem currentFile_failTransfer (message : QString) (w : Sender) :
    (w.failTransfer message).service.currentFile = none := by
  have hclosed : ∀ {v : Sender}, Noted w.closeCurrentFile v → v.service.currentFile = none :=
    fun hv => hv.currentFile.elim id id
  unfold failTransfer
  extract_lets v
  have hv : Noted w.closeCurrentFile v := (skipRows_noted _ _).trans (setState_noted _ _ _)
  exact hclosed (hv.trans (record_noted _ _ v))

theorem Rests.failTransfer (h : w.Rests) (hc : w.service.busy = true → w.service.cancelled = false)
    (message : QString) : (w.failTransfer message).Tidy :=
  h.tidy_noted (failTransfer_noted message w) (currentFile_failTransfer message w) hc

theorem Rests.uploadRow {row : Nat} (h : w.Rests) (hb : w.service.busy = true)
    (hc : w.service.cancelled = false) (hcurrent : w.service.currentRow = some row)
    (hrow : row < w.transfer.fileCount) (content : QByteArray) : (w.uploadRow row content).Tidy := by
  unfold Sender.uploadRow
  extract_lets entry s v
  have hv : v.Rests := ⟨h.fresh, h.none⟩
  have hdeclared : (v.setFileStatus row .transferring []).transfer.declared =
      w.transfer.declared := TransferModel.declared_setFileStatus _ _ _ _
  refine (hv.noted (setFileStatus_noted row .transferring [] v)).postToPeer hb hc ?_ fun _ => ⟨row, rfl⟩
  rintro _ ⟨⟩
  refine ⟨hcurrent, ?_, entry.token, content, ?_⟩
  · rwa [TransferModel.fileCount_congr hdeclared]
  · rw [TransferModel.id_congr hdeclared, TransferModel.size_congr hdeclared]
    rfl

theorem takeTokens_service (tokens : QJsonObject) (w : Sender) :
    (w.takeTokens tokens).2.service = w.service := by
  unfold takeTokens
  generalize List.range w.transfer.fileCount = rows
  generalize 0 = n
  induction rows generalizing n w with
  | nil => rfl
  | cons row rows ih =>
    rw [List.foldl_cons]
    simp only
    split <;> exact ih _ _

theorem forgetReply_busy (id : ReplyId) (w : Sender) :
    (w.forgetReply id).service.busy = w.service.busy := by
  unfold forgetReply
  split <;> rfl

theorem fileEntries_transfer (i : Nat) (paths : List QString) (w : Sender) :
    (fileEntries i paths w).2.transfer = w.transfer ∧
      (fileEntries i paths w).2.service = w.service := by
  induction paths generalizing i w with
  | nil => exact ⟨rfl, rfl⟩
  | cons path paths ih =>
    unfold fileEntries
    cases w.files path with
    | none => exact ih (i + 1) w
    | some file => exact ih (i + 1) w.generateToken.2

section
variable [Qt]

theorem Rests.completeTransfer (h : w.Rests) (hf : w.service.currentFile = Option.none)
    (hc : w.service.cancelled = false) : w.completeTransfer.Tidy := by
  unfold Sender.completeTransfer
  extract_lets done total v peer u
  have hv : Noted w v := by
    simp only [v]
    split_ifs
    · exact setState_noted _ _ w
    · exact setState_noted _ _ w
    · exact setState_noted _ _ w
  have hu : ∃ known, u = { v with known := known } := by
    simp only [u]
    split
    · exact ⟨_, rfl⟩
    · exact ⟨v.known, rfl⟩
  obtain ⟨known, hu⟩ := hu
  have hrests : u.Rests := by
    rw [hu]
    exact ⟨(h.noted hv).fresh, (h.noted hv).none⟩
  have hnoted := (writeHistory_noted u).trans (leave_noted u.transfer.stateName done _)
  refine hrests.tidy_noted hnoted ?_ fun _ => ?_
  · refine hnoted.currentFile.elim (fun hx => hx.trans ?_) (fun hx => hx)
    rw [hu]
    exact hv.currentFile.elim (fun hx => hx.trans hf) (fun hx => hx)
  · rw [hu]
    exact hv.cancelled.trans hc

theorem Rests.startRows {rows : List Nat} (h : w.Rests) (hb : w.service.busy = true)
    (hc : w.service.cancelled = false) (hf : w.service.currentFile = Option.none)
    (hrows : ∀ row ∈ rows, row < w.transfer.fileCount) : (startRows rows w).Tidy := by
  induction rows generalizing w with
  | nil => exact h.completeTransfer hf hc
  | cons row rows ih =>
    unfold Sender.startRows
    split
    · exact ih h hb hc hf fun row' hr => hrows row' (List.mem_cons_of_mem _ hr)
    · extract_lets s v
      have hv : v.Rests := ⟨h.fresh, h.none⟩
      split
      · exact hv.uploadRow hb hc rfl (hrows row List.mem_cons_self) _
      · have hfailed := setFileStatus_noted row .failed (str "Could not open the file") v
        refine ih (hv.noted hfailed) hb hc hf fun row' hr => ?_
        rw [TransferModel.fileCount_congr hfailed.declared]
        exact hrows row' (List.mem_cons_of_mem _ hr)

theorem Rests.startNextFile (h : w.Rests) (hb : w.service.busy = true)
    (hc : w.service.cancelled = false) : w.startNextFile.Tidy := by
  unfold Sender.startNextFile
  extract_lets v next
  have hv : v.Rests := h.noted (closeCurrentFile_noted w)
  have hvc : v.service.cancelled = false := hc
  rw [if_neg (by rw [hvc]; exact Bool.false_ne_true)]
  refine hv.startRows hb hc rfl fun row hr => ?_
  exact List.mem_range.1 (List.mem_of_mem_drop hr)

theorem Rests.onAccepted (h : w.Rests) (hb : w.service.busy = true)
    (hc : w.service.cancelled = false) (hf : w.service.currentFile = Option.none)
    (body : QByteArray) : (w.onAccepted body).Tidy := by
  unfold Sender.onAccepted
  extract_lets unreadable
  split
  · exact h.failTransfer (fun _ => hc) _
  · extract_lets sessionId tokens v
    have hv : v.Rests := ⟨h.fresh, h.none⟩
    split
    · exact hv.failTransfer (fun _ => hc) _
    · have ht := takeTokens_noted tokens v
      have hs := takeTokens_service tokens v
      rcases hu : v.takeTokens tokens with ⟨accepted, u⟩
      rw [hu] at ht hs
      have hub : u.service.busy = true := by rw [hs]; exact hb
      have huc : u.service.cancelled = false := by rw [hs]; exact hc
      have huf : u.service.currentFile = Option.none := by rw [hs]; exact hf
      simp only
      split
      · exact (hv.noted ht).tidy_noted (quit_noted .finished (str "finished") u) huf fun _ => huc
      · have hactive := (hv.noted ht).noted (setState_noted .active [] u)
        exact Rests.startNextFile ⟨hactive.fresh, hactive.none⟩ hub huc

/-! ## The ends of requests -/

theorem onPrepareFinished_tidy (h : w.Rests) (hb : w.service.busy = true)
    (hc : w.service.cancelled = false) (hf : w.service.currentFile = none) (id : ReplyId)
    (error : Bool) (status : Nat) (body : QByteArray) :
    (w.onPrepareFinished id error status body).Tidy := by
  unfold onPrepareFinished
  extract_lets v aliasName
  have hv : Noted w v := forgetReply_noted id w
  have hvb : v.service.busy = true := (forgetReply_busy id w).trans hb
  have hvc : v.service.cancelled = false := hv.cancelled.trans hc
  have hvf : v.service.currentFile = none := hv.currentFile.elim (fun hx => hx.trans hf) fun hx => hx
  have fails := (h.noted hv).failTransfer fun _ => hvc
  have asked : Noted v ((v.setState .idle []).signal (.pinRequired v.service.pinAttempted)) :=
    (setState_noted .idle [] v).trans (signal_noted _ _)
  have declined : Noted v ((v.signal .declined).quit .cancelled (str "declined")) :=
    (signal_noted _ v).trans (quit_noted _ _ _)
  rw [if_neg (by rw [hvc]; exact Bool.false_ne_true)]
  split
  · exact fails _
  · split
    · exact (h.noted hv).onAccepted hvb hvc hvf body
    · exact (h.noted hv).tidy_noted (quit_noted .finished (str "finished") v) hvf fun _ => hvc
    · exact (h.noted hv).tidy_noted asked hvf fun _ => hvc
    · exact (h.noted hv).tidy_noted declined hvf fun _ => hvc
    · exact fails _
    · exact fails _
    · exact fails _

theorem onUploadFinished_tidy (h : w.Rests) (hb : w.service.busy = true)
    (hc : w.service.cancelled = false) (id : ReplyId) (error : Bool) (status : Nat)
    (errorString : QString) : (w.onUploadFinished id error status errorString).Tidy := by
  unfold onUploadFinished
  extract_lets v
  have hv : Noted w v := forgetReply_noted id w
  have hvb : v.service.busy = true := (forgetReply_busy id w).trans hb
  have hvc : v.service.cancelled = false := hv.cancelled.trans hc
  have settled := fun status error => (h.noted hv).noted (settleCurrent_noted status error v)
  have next : ∀ fileStatus message, (v.settleCurrent fileStatus message).startNextFile.Tidy := by
    intro fileStatus message
    refine (settled fileStatus message).startNextFile ?_ ?_
    · rwa [settleCurrent_service]
    · rwa [settleCurrent_service]
  rw [if_neg (by rw [hvc]; exact Bool.false_ne_true)]
  split
  · exact next _ _
  · split
    · refine (settled _ _).failTransfer (fun _ => ?_) _
      rwa [settleCurrent_service]
    · exact next _ _

omit [Qt] in
/-- A request that is none of the transfer's business comes and goes. -/
theorem Tidy.aside {A : Outbound → Prop} (h : w.Tidy) (hv : Aside A w v)
    (hA : ∀ q, A (.posted q) → q.slot.isTransfer = false) : v.Tidy := by
  have hsame : ∀ {id r}, v.replies id = some r → r.request.slot.isTransfer = true →
      w.replies id = some r := by
    intro id r hr ht
    by_cases hid : id < w.nextReply
    · rw [← hv.kept id hid]
      exact hr
    · rcases hv.replies id r hr with ⟨q, hq, -⟩ | hposted
      · cases (h.fresh id (Nat.le_of_not_lt hid)).symm.trans hq
      · cases (hA _ hposted).symm.trans ht
  refine ⟨fun id hid => ?_, fun id r hr ht => ?_, fun hb => ?_, fun id r row hr hs => ?_, fun hne => ?_⟩
  · rw [hv.unposted id hid]
    exact h.fresh id (Nat.le_trans hv.next hid)
  · rw [hv.service]
    exact h.waited id r (hsame hr ht) ht
  · rw [hv.service] at hb ⊢
    exact h.lasting hb
  · refine (h.row id r row (hsame hr (isTransfer_of_uploaded hs)) hs).congr ?_ ?_ ?_
    · rw [hv.service]
    · rw [hv.service]
    · rw [hv.transfer]
  · rw [hv.service] at hne
    obtain ⟨id, r, row, hr, hs⟩ := h.file hne
    refine ⟨id, r, row, ?_, hs⟩
    rw [hv.kept id ?_]
    · exact hr
    · by_contra hid
      cases (h.fresh id (Nat.le_of_not_lt hid)).symm.trans hr

omit [Qt] in
/-- The rows are rewritten, or requests go on, as they were. -/
theorem Tidy.congr (h : w.Tidy) (hservice : v.service = w.service)
    (hnext : v.nextReply = w.nextReply)
    (hreplies : ∀ id, (v.replies id).map (·.request) = (w.replies id).map (·.request))
    (hdeclared : v.transfer.declared = w.transfer.declared) : v.Tidy := by
  have hback : ∀ {id r}, v.replies id = some r →
      ∃ q, w.replies id = some q ∧ q.request = r.request := by
    intro id r hr
    have hmap := hreplies id
    rw [hr] at hmap
    exact Option.map_eq_some_iff.1 hmap.symm
  refine ⟨fun id hid => ?_, fun id r hr ht => ?_, fun hb => ?_, fun id r row hr hs => ?_, fun hne => ?_⟩
  · have hmap := hreplies id
    rw [h.fresh id (hnext ▸ hid)] at hmap
    exact Option.map_eq_none_iff.1 hmap
  · obtain ⟨q, hq, he⟩ := hback hr
    rw [hservice]
    exact h.waited id q hq (he ▸ ht)
  · rw [hservice] at hb ⊢
    exact h.lasting hb
  · obtain ⟨q, hq, he⟩ := hback hr
    rw [← he] at hs ⊢
    exact (h.row id q row hq hs).congr (by rw [hservice]) (by rw [hservice]) hdeclared
  · rw [hservice] at hne
    obtain ⟨id, r, row, hr, hs⟩ := h.file hne
    have hmap := hreplies id
    rw [hr] at hmap
    obtain ⟨q, hq, he⟩ := Option.map_eq_some_iff.1 hmap
    exact ⟨id, q, row, hq, by rw [he]; exact hs⟩

theorem Tidy.finish (h : w.Tidy) (hr : w.replies id = some r) (error : Bool) (status : Nat)
    (errorString : QString) (body : QByteArray) :
    (w.finish id r error status errorString body).Tidy := by
  rcases ht : r.request.slot.isTransfer with - | -
  · exact (h.drop hr ht).aside (finish_aside ht id error status errorString body w)
      fun q hq => hq.2.2
  · obtain ⟨hreply, hb⟩ := h.waited id r hr ht
    have hrests := h.finished hreply
    have hc := h.lasting hb
    unfold Sender.finish
    extract_lets v
    cases hs : r.request.slot with
    | prepared =>
      refine onPrepareFinished_tidy hrests hb hc ?_ id error status body
      by_contra hne
      obtain ⟨j, q, row, hq, hqs⟩ := h.file hne
      have hsame := hreply.symm.trans (h.waited j q hq (isTransfer_of_uploaded hqs)).1
      obtain rfl := Option.some.inj hsame
      obtain rfl := Option.some.inj (hr.symm.trans hq)
      cases hs.symm.trans hqs
    | uploaded row => exact onUploadFinished_tidy hrests hb hc id error status errorString
    | _ =>
      rw [hs] at ht
      cases ht

theorem Tidy.sendFiles (h : w.Tidy) (device : DeviceInfo) (paths : List QString) :
    (w.sendFiles device paths).Tidy := by
  unfold Sender.sendFiles
  extract_lets peer
  split
  · exact h
  · rename_i hidle
    have hb : w.service.busy = false := eq_false_of_ne_true (not_or.1 hidle).1
    have hrests := h.rests (.inr hb)
    have hf := h.closed hrests
    split
    · exact Rests.tidy ⟨hrests.fresh, hrests.none⟩ hf fun hbusy => by cases hb.symm.trans hbusy
    · have hentries := fileEntries_noted 0 paths w
      rcases hv : fileEntries 0 paths w with ⟨entries, v⟩
      rw [hv] at hentries
      have hvf : v.service.currentFile = none :=
        hentries.currentFile.elim (fun hx => hx.trans hf) fun hx => hx
      simp only
      split
      · exact hrests.tidy_noted hentries hvf fun hbusy => by cases hb.symm.trans hbusy
      · have hbegun : (v.beginSending peer entries).Rests :=
          ⟨(hrests.noted hentries).fresh, (hrests.noted hentries).none⟩
        refine (hbegun.noted (setState_noted .requesting [] _)).postToPeer rfl rfl
          (fun _ hx => by cases hx) fun hne => absurd hvf hne

theorem Tidy.submitPin (h : w.Tidy) {pin : QString} (hp : w.Patient (.submitPin pin)) :
    (w.submitPin pin).Tidy := by
  unfold Sender.submitPin
  split
  · exact h
  · rename_i hne
    obtain ⟨hb, hpin⟩ := not_or.1 hne
    have hb : w.service.busy = true := not_not.1 hb
    have hrests := h.rests (.inl (hp hb hpin))
    extract_lets s v
    have hv : v.Rests := ⟨hrests.fresh, hrests.none⟩
    exact (hv.noted (setState_noted .requesting [] v)).postToPeer hb (h.lasting hb)
      (fun _ hx => by cases hx) fun hopen => absurd (h.closed hrests) hopen

omit [Qt] in
theorem Tidy.cancel (h : w.Tidy) : w.cancel.Tidy := by
  unfold Sender.cancel
  split
  · exact h
  · extract_lets v
    have haborted : w.abortReply.Rests := by
      unfold abortReply
      cases hreply : w.service.reply with
      | none => exact ⟨(h.rests (.inl hreply)).fresh, (h.rests (.inl hreply)).none⟩
      | some id => exact ⟨(h.finished hreply).fresh, (h.finished hreply).none⟩
    have hnotified : w.abortReply.closeCurrentFile.notifyPeerCancelled.Rests := by
      unfold notifyPeerCancelled
      split
      · exact haborted.noted (closeCurrentFile_noted _)
      · exact (haborted.noted (closeCurrentFile_noted _)).post rfl
    have hclosed : w.abortReply.closeCurrentFile.notifyPeerCancelled.service.currentFile = none := by
      unfold notifyPeerCancelled
      split <;> rfl
    have hnoted := ((skipRows_noted (fun s => s = .waiting ∨ s = .transferring) _).trans
      (setState_noted .cancelled [] _)).trans (record_noted (str "cancelled") v.transfer.completedCount v)
    refine (hnotified.noted hnoted).tidy ?_ fun hb => ?_
    · exact hnoted.currentFile.elim (fun hx => hx.trans hclosed) fun hx => hx
    · split at hb <;> cases hb

/-! ## Every event -/

/-- What finds devices posts nothing of a transfer. -/
theorem Sends.unrelated {e : SenderEvent} {q : QNetworkRequest} (h : w.Sends e (.posted q))
    (he : e.isDiscovery = true) : q.slot.isTransfer = false := by
  cases h with
  | probe ho => exact ho.2.2
  | answer hannounces ho =>
    obtain ⟨body, rfl⟩ := ho
    rfl
  | ask => cases he
  | askAgain => cases he
  | upload hgoes => cases e <;> first | exact hgoes.elim | cases he
  | cancel => cases he

/-- What becomes of a request: nothing that counts, it leaves, or it is finished. -/
theorem step_reply {e : SenderEvent} (he : e.isReply = true) (w : Sender) : w.step e = w ∨
    (∃ id r certificate seen, w.replies id = some r ∧ w.step e =
      (w.setReply id (some ⟨r.request, true, certificate⟩)).emit (.sent r.request seen)) ∨
    ∃ id r error status errorString body, w.replies id = some r ∧
      w.step e = w.finish id r error status errorString body := by
  cases e with
  | connects id certificate reported =>
    simp only [Sender.step]
    cases hr : w.replies id with
    | none => exact .inl rfl
    | some r =>
      simp only [connect]
      split
      · exact .inl rfl
      · split
        · exact .inr (.inl ⟨id, r, _, _, hr, rfl⟩)
        · exact .inr (.inr ⟨id, r, _, _, _, _, hr, rfl⟩)
  | answered id error status errorString body =>
    simp only [Sender.step]
    cases hr : w.replies id with
    | none => exact .inl rfl
    | some r =>
      simp only
      split
      · exact .inr (.inr ⟨id, r, _, _, _, _, hr, rfl⟩)
      · exact .inl rfl
  | fails id errorString =>
    simp only [Sender.step]
    cases hr : w.replies id with
    | none => exact .inl rfl
    | some r => exact .inr (.inr ⟨id, r, _, _, _, _, hr, rfl⟩)
  | _ => cases he

theorem Tidy.step (h : w.Tidy) {e : SenderEvent} (hp : w.Patient e) : (w.step e).Tidy := by
  by_cases he : e.isDiscovery = true
  · exact h.aside (step_aside he w) fun q hq => hq.unrelated he
  by_cases hreply : e.isReply = true
  · rcases step_reply hreply w with heq | ⟨id, r, certificate, seen, hr, heq⟩ | ⟨id, r, _, _, _, _, hr, heq⟩
    · rwa [heq]
    · rw [heq]
      refine h.congr rfl rfl (fun j => ?_) rfl
      change ((w.setReply id _).replies j).map _ = _
      by_cases hj : j = id
      · subst hj
        rw [setReply_self, hr]
        rfl
      · rw [setReply_ne hj]
    · rw [heq]
      exact h.finish hr _ _ _ _
  cases e with
  | uploadProgress id sent =>
    simp only [Sender.step]
    split
    · exact h.congr rfl rfl (fun _ => rfl) (TransferModel.alike_setFileTransferred _ _ _).declared
    · exact h
  | hold row =>
    simp only [Sender.step]
    split
    · exact h.congr rfl rfl (fun _ => rfl) rfl
    · exact h
  | sendFiles device paths =>
    simp only [Sender.step]
    split
    · exact h.sendFiles device paths
    · exact h
  | submitPin pin => exact h.submitPin hp
  | cancel => exact h.cancel
  | edit e => exact h.congr rfl rfl (fun _ => rfl) rfl
  | settings s => exact h.congr rfl rfl (fun _ => rfl) rfl
  | files files => exact h.congr rfl rfl (fun _ => rfl) rfl
  | tick ms => exact h.congr rfl rfl (fun _ => rfl) rfl
  | connects => exact absurd rfl hreply
  | answered => exact absurd rfl hreply
  | fails => exact absurd rfl hreply
  | _ => exact absurd rfl he

omit [Qt] in
theorem Start.tidy (h : w.Start) : w.Tidy where
  fresh id _ := by rw [h.replies]
  waited id r hr := by
    rw [h.replies] at hr
    cases hr
  lasting hb := by
    rw [h.service] at hb
    cases hb
  row id r row hr := by
    rw [h.replies] at hr
    cases hr
  file hne := by
    rw [h.service] at hne
    exact absurd rfl hne

/-- `sendFiles` gets as far as `begin`: nothing is being sent, and there is somebody to send to who
is blocked, or is sent something. -/
structure Begins (w : Sender) (device : DeviceInfo) (paths : List QString) : Prop where
  held : device ∈ w.held
  idle : w.service.busy = false
  address : device.address ≠ []
  chosen : paths ≠ []
  files : w.known.isBlocked device.fingerprint = true ∨ (fileEntries 0 paths w).1 ≠ []

/-- While nothing is being sent, only `begin` touches the rows. -/
theorem Tidy.idle_step (h : w.Tidy) (hb : w.service.busy = false) {e : SenderEvent}
    (he : ∀ device paths, e = .sendFiles device paths → ¬ w.Begins device paths) :
    (w.step e).transfer = w.transfer ∧ (w.step e).service.busy = false := by
  have unrelated : ∀ {id r}, w.replies id = some r → r.request.slot.isTransfer = false :=
    fun {id r} hr => (h.rests (.inr hb)).none id r hr
  have finished : ∀ {id r}, w.replies id = some r → ∀ error status errorString body,
      (w.finish id r error status errorString body).transfer = w.transfer ∧
        (w.finish id r error status errorString body).service.busy = false := by
    intro id r hr error status errorString body
    have hv := finish_aside (unrelated hr) id error status errorString body w
    exact ⟨hv.transfer, by rw [hv.service]; exact hb⟩
  by_cases hd : e.isDiscovery = true
  · have hv := step_aside hd w
    exact ⟨hv.transfer, by rw [hv.service]; exact hb⟩
  by_cases hreply : e.isReply = true
  · rcases step_reply hreply w with heq | ⟨id, r, certificate, seen, -, heq⟩ | ⟨id, r, _, _, _, _, hr, heq⟩
    · rw [heq]
      exact ⟨rfl, hb⟩
    · rw [heq]
      exact ⟨rfl, hb⟩
    · rw [heq]
      exact finished hr _ _ _ _
  cases e with
  | uploadProgress id sent =>
    simp only [Sender.step]
    split
    · rename_i hr
      cases unrelated hr
    · exact ⟨rfl, hb⟩
  | hold row =>
    simp only [Sender.step]
    split <;> exact ⟨rfl, hb⟩
  | sendFiles device paths =>
    simp only [Sender.step]
    split
    · rename_i hheld
      unfold Sender.sendFiles
      extract_lets peer
      split
      · exact ⟨rfl, hb⟩
      · rename_i hready
        obtain ⟨haddress, hpaths⟩ := not_or.1 (not_or.1 hready).2
        split
        · rename_i hblocked
          exact absurd ⟨hheld, hb, haddress, hpaths, .inl hblocked⟩ (he device paths rfl)
        · have hentries := fileEntries_noted 0 paths w
          have htransfer := fileEntries_transfer 0 paths w
          rcases hv : fileEntries 0 paths w with ⟨entries, v⟩
          rw [hv] at hentries htransfer
          simp only
          split
          · exact ⟨htransfer.1, by rw [htransfer.2]; exact hb⟩
          · rename_i hne
            refine absurd ⟨hheld, hb, haddress, hpaths, .inr ?_⟩ (he device paths rfl)
            rw [hv]
            exact hne
    · exact ⟨rfl, hb⟩
  | submitPin pin =>
    have hsame : w.step (.submitPin pin) = w := if_pos (.inl (by simp [hb]))
    rw [hsame]
    exact ⟨rfl, hb⟩
  | cancel =>
    have hsame : w.step .cancel = w := if_pos (by simp [hb])
    rw [hsame]
    exact ⟨rfl, hb⟩
  | edit e => exact ⟨rfl, hb⟩
  | settings s => exact ⟨rfl, hb⟩
  | files files => exact ⟨rfl, hb⟩
  | tick ms => exact ⟨rfl, hb⟩
  | connects => exact absurd rfl hreply
  | answered => exact absurd rfl hreply
  | fails => exact absurd rfl hreply
  | _ => exact absurd rfl hd

end

end Sender

end LocalSend
