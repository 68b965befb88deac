import LocalSend.Qt.Arg
import LocalSend.Send.Proof.Frames
import LocalSend.Send.Proof.Shipments
import LocalSend.Send.Proof.Turns

/-!
# What the service keeps of the files that went up

`Books` is the invariant: every shipment has the size its row states, no file went up twice in a
session, and a row that is done was shipped, in the session in force while the transfer goes on, and
vouched for (`K`). The sessions come from the
receiver, each a new one (`G` has those it gave before). It holds as long as the files of a transfer
are left alone (`Intact`) and the receiver keeps its word (`Books.step`).
-/

set_option autoImplicit false

namespace LocalSend.Sender

structure Books (G : QString → Prop) (K : Shipment → Prop) (w : Sender) : Prop where
  ids : ∀ row < w.transfer.fileCount, ∀ row' < w.transfer.fileCount,
    (w.transfer.entry row).id = (w.transfer.entry row').id → row = row'
  measured : w.service.busy = true → ∀ row < w.transfer.fileCount, ∀ file,
    w.files (w.transfer.entry row).localPath = some file →
      file.content.length = (w.transfer.entry row).size
  whole : ∀ s ∈ shipments w.log, s.content.length = s.size
  known : ∀ s ∈ shipments w.log, s.sessionId ≠ [] → G s.sessionId
  current : w.service.sessionId ≠ [] → G w.service.sessionId
  once : ∀ s ∈ shipments w.log, ∀ s' ∈ shipments w.log, s.sessionId ≠ [] →
    s.sessionId = s'.sessionId → s.fileId = s'.fileId → s.content = s'.content
  gone : ∀ s ∈ shipments w.log, s.sessionId ≠ [] → s.sessionId = w.service.sessionId →
    ∀ row < w.transfer.fileCount, (w.transfer.entry row).id = s.fileId →
      (w.transfer.entry row).status ≠ .waiting
  done : ∀ row < w.transfer.fileCount, (w.transfer.entry row).status = .done →
    ∃ s ∈ shipments w.log, s.row = row ∧ s.fileId = (w.transfer.entry row).id ∧
      s.size = (w.transfer.entry row).size ∧
      (w.service.busy = true → s.sessionId = w.service.sessionId) ∧ K s

/-- The files of a transfer stay as they are as long as it is under way. -/
def Intact (w : Sender) : SenderEvent → Prop
  | .files files => w.service.busy = true → ∀ row < w.transfer.fileCount,
    files (w.transfer.entry row).localPath = w.files (w.transfer.entry row).localPath
  | _ => True

/-- The receiver keeps its word: it grants new sessions only (to be `G'` from here on), and answers
an upload with success only if it can be vouched for. -/
structure Promised [Qt] (G G' : QString → Prop) (K : Shipment → Prop) (w : Sender)
    (e : SenderEvent) : Prop where
  grants : ∀ id r error errorString body, e = .answered id error 200 errorString body →
    w.replies id = some r → r.sent = true → r.request.slot = .prepared →
      ∀ response, Qt.fromJson body = some response →
        (response.value (str "sessionId")).toString [] ≠ [] →
          ¬ G ((response.value (str "sessionId")).toString []) ∧
            G' ((response.value (str "sessionId")).toString [])
  vouches : ∀ id r status errorString body, e = .answered id false status errorString body →
    w.replies id = some r → r.sent = true → 200 ≤ status → status < 300 →
      ∀ s, r.request.shipment? = some s → K s

/-- While the file list is on its way, nothing of it is done. -/
def Offering (w : Sender) : Prop := ∀ id r, w.replies id = some r → r.request.slot = .prepared →
  ∀ row < w.transfer.fileCount, (w.transfer.entry row).status ≠ .done

/-- The requests of transfers that are under way were posted. -/
def Posted (w : Sender) : Prop := ∀ id r, w.replies id = some r →
  r.request.slot.isTransfer = true → ∃ e ∈ w.log, e.what = .posted r.request

variable {u v w : Sender} {G G' : QString → Prop} {K K' : Shipment → Prop}

/-- A transfer asks first, and what goes up has another request under way. -/
theorem Phased.offering {granted : QJsonObject} (h : Phased granted w) (ht : w.Tidy) :
    w.Offering := by
  intro id r hr hslot row hrow
  obtain ⟨hreply, hbusy⟩ := ht.waited id r hr (by rw [hslot]; rfl)
  rcases h hbusy with hasks | hclimbs
  · rw [(TransferModel.forall_files.1 hasks.rows row hrow).1]
    exact FileStatus.noConfusion
  · obtain ⟨j, q, row', hq, hqs⟩ := ht.file hclimbs.file
    obtain ⟨hother, -⟩ := ht.waited j q hq (isTransfer_of_uploaded hqs)
    obtain rfl := Option.some.inj (hreply.symm.trans hother)
    obtain rfl := Option.some.inj (hr.symm.trans hq)
    cases hslot.symm.trans hqs

theorem Books.mono (h : Books G K w) (hG : ∀ s, G s → G' s) (hK : ∀ s, K s → K' s) :
    Books G' K' w where
  ids := h.ids
  measured := h.measured
  whole := h.whole
  known s hs hne := hG _ (h.known s hs hne)
  current hne := hG _ (h.current hne)
  once := h.once
  gone := h.gone
  done row hrow hd := by
    obtain ⟨s, hs, hr, hid, hsize, hsession, hk⟩ := h.done row hrow hd
    exact ⟨s, hs, hr, hid, hsize, hsession, hK s hk⟩

theorem Books.drift (h : Books G K w) (hd : Drift w v) : Books G K v where
  ids row hrow row' hrow' heq := by
    rw [hd.count] at hrow hrow'
    rw [(hd.rows row).id, (hd.rows row').id] at heq
    exact h.ids row hrow row' hrow' heq
  measured hb row hrow file hfile := by
    rw [hd.count] at hrow
    rw [hd.files, (hd.rows row).localPath] at hfile
    rw [(hd.rows row).size]
    exact h.measured (hd.busy hb) row hrow file hfile
  whole := hd.shipments ▸ h.whole
  known := hd.shipments ▸ h.known
  current hne := by
    rcases hd.session with heq | ⟨hnil, -⟩
    · rw [heq] at hne ⊢
      exact h.current hne
    · exact absurd hnil hne
  once := hd.shipments ▸ h.once
  gone s hs hne heq row hrow hid := by
    rw [hd.shipments] at hs
    rw [hd.count] at hrow
    rw [(hd.rows row).id] at hid
    rcases hd.session with hsame | ⟨hnil, -⟩
    · have hgone := h.gone s hs hne (heq.trans hsame) row hrow hid
      rcases (hd.rows row).status with hst | hst
      · rwa [hst]
      · exact hst.1
    · exact absurd (heq.trans hnil) hne
  done row hrow hdone := by
    rw [hd.count] at hrow
    rcases (hd.rows row).status with hst | hst
    · obtain ⟨s, hs, hr, hid, hsize, hsession, hk⟩ := h.done row hrow (hst.symm.trans hdone)
      refine ⟨s, hd.shipments ▸ hs, hr, ?_, ?_, fun hb => ?_, hk⟩
      · rw [(hd.rows row).id]
        exact hid
      · rw [(hd.rows row).size]
        exact hsize
      · rcases hd.session with hsame | ⟨-, hidle⟩
        · exact (hsession (hd.busy hb)).trans hsame.symm
        · cases hidle.symm.trans hb
    · exact absurd hdone hst.2

theorem shipments_concat (log : List LogEntry) (e : LogEntry) :
    shipments (log ++ [e]) = shipments log ++ e.what.shipment?.toList := by
  unfold shipments
  rw [List.filterMap_append]
  cases h : e.what.shipment? <;> simp [h]

/-- The upload of a row. -/
def shipmentOf (row : Nat) (content : QByteArray) (w : Sender) : Shipment where
  sessionId := w.service.sessionId
  fileId := (w.transfer.entry row).id
  size := (w.transfer.entry row).size
  row := row
  content := content

theorem uploadRow_shipments (row : Nat) (content : QByteArray) (w : Sender) :
    shipments (w.uploadRow row content).log = shipments w.log ++ [w.shipmentOf row content] :=
  shipments_concat _ _

/-- The row that goes up is on its way, the others stay as they are. -/
theorem uploadRow_entry (row : Nat) (content : QByteArray) (w : Sender) (row' : Nat) :
    (w.uploadRow row content).transfer.entry row' =
      if row' = row ∧ row < w.transfer.fileCount then
        TransferModel.settle (w.transfer.entry row') .transferring [] else w.transfer.entry row' :=
  TransferModel.entry_setFileStatus _ _ _ _ _

theorem uploadRow_fades (row : Nat) (content : QByteArray) (w : Sender) (row' : Nat) :
    (w.transfer.entry row').Fades ((w.uploadRow row content).transfer.entry row') := by
  rw [uploadRow_entry]
  split
  · exact ⟨rfl, rfl, rfl, .inr ⟨FileStatus.noConfusion, FileStatus.noConfusion⟩⟩
  · exact .refl _

theorem Books.ship (h : Books G K w) (hb : w.service.busy = true) {row : Nat}
    (hrow : row < w.transfer.fileCount) (hwaits : (w.transfer.entry row).status = .waiting)
    {content : QByteArray} {mimeType : QString}
    (hfile : w.files (w.transfer.entry row).localPath = some ⟨content, mimeType, true⟩) :
    Books G K (w.uploadRow row content) := by
  have hcount : (w.uploadRow row content).transfer.fileCount = w.transfer.fileCount :=
    TransferModel.fileCount_setFileStatus _ _ _ _
  have hfades := uploadRow_fades row content w
  have hships := uploadRow_shipments row content w
  -- Nothing of this session had the id of the row, which waits.
  have hnew : ∀ s ∈ shipments w.log, s.sessionId ≠ [] →
      s.sessionId = w.service.sessionId → s.fileId ≠ (w.transfer.entry row).id :=
    fun s hs hne heq hid => h.gone s hs hne heq row hrow hid.symm hwaits
  have hmem : ∀ s, s ∈ shipments (w.uploadRow row content).log ↔
      s ∈ shipments w.log ∨ s = w.shipmentOf row content := fun s => by
    rw [hships, List.mem_append, List.mem_singleton]
  constructor
  case ids =>
    intro r hr r' hr' heq
    rw [hcount] at hr hr'
    rw [(hfades r).id, (hfades r').id] at heq
    exact h.ids r hr r' hr' heq
  case measured =>
    intro _ r hr file hf
    rw [hcount] at hr
    rw [(hfades r).localPath] at hf
    rw [(hfades r).size]
    exact h.measured hb r hr file hf
  case whole =>
    intro s hs
    rcases (hmem s).1 hs with hs | rfl
    · exact h.whole s hs
    · exact h.measured hb row hrow _ hfile
  case known =>
    intro s hs hne
    rcases (hmem s).1 hs with hs | rfl
    · exact h.known s hs hne
    · exact h.current hne
  case current => exact h.current
  case once =>
    intro s hs s' hs' hne heq hid
    rcases (hmem s).1 hs with hs | rfl
    · rcases (hmem s').1 hs' with hs' | rfl
      · exact h.once s hs s' hs' hne heq hid
      · exact absurd hid (hnew s hs hne heq)
    · rcases (hmem s').1 hs' with hs' | rfl
      · exact absurd hid.symm (hnew s' hs' (heq ▸ hne) heq.symm)
      · rfl
  case gone =>
    intro s hs hne heq r hr hid
    rw [hcount] at hr
    rw [(hfades r).id] at hid
    rcases (hmem s).1 hs with hs | rfl
    · have hgone := h.gone s hs hne heq r hr hid
      rcases (hfades r).status with hst | hst
      · rwa [hst]
      · exact hst.1
    · obtain rfl := h.ids r hr row hrow hid
      rw [uploadRow_entry, if_pos ⟨rfl, hrow⟩]
      exact FileStatus.noConfusion
  case done =>
    intro r hr hd
    rw [hcount] at hr
    rcases (hfades r).status with hst | hst
    · obtain ⟨s, hs, hsr, hid, hsize, hsession, hk⟩ := h.done r hr (hst.symm.trans hd)
      refine ⟨s, (hmem s).2 (.inl hs), hsr, ?_, ?_, hsession, hk⟩
      · rw [(hfades r).id]
        exact hid
      · rw [(hfades r).size]
        exact hsize
    · exact absurd hd hst.2

theorem Books.moves (h : Books G K w) (hm : Moves w v) : Books G K v := by
  cases hm with
  | drift hd => exact h.drift hd
  | ship hd hb hrow hwaits hfile => exact (h.drift hd).ship hb hrow hwaits hfile

/-- A new session, or none, before a row is done. -/
theorem Books.session (h : Books G K w) {sessionId : QString}
    (hrows : ∀ row < w.transfer.fileCount, (w.transfer.entry row).status ≠ .done)
    (hs : sessionId ≠ [] → ¬ G sessionId ∧ G' sessionId) (hG : ∀ s, G s → G' s) :
    Books G' K { w with service := { w.service with sessionId := sessionId } } where
  ids := h.ids
  measured := h.measured
  whole := h.whole
  known s hmem hne := hG _ (h.known s hmem hne)
  current hne := (hs hne).2
  once := h.once
  gone s hmem hne heq := by
    have heq : s.sessionId = sessionId := heq
    exact absurd (heq ▸ h.known s hmem hne) (hs (heq ▸ hne)).1
  done row hrow hdone := absurd hdone (hrows row hrow)

/-- The current row, which went up, is vouched for. -/
theorem Books.success (h : Books G K w) {row : Nat} (hcurrent : w.service.currentRow = some row)
    {s : Shipment} (hs : s ∈ shipments w.log) (hrow : s.row = row)
    (hid : s.fileId = (w.transfer.entry row).id) (hsize : s.size = (w.transfer.entry row).size)
    (hsession : s.sessionId = w.service.sessionId) (hk : K s) :
    Books G K (w.settleCurrent .done []) := by
  have heq : w.settleCurrent .done [] = w.setFileStatus row .done [] := by
    unfold settleCurrent
    rw [hcurrent]
  have hcount : (w.setFileStatus row .done []).transfer.fileCount = w.transfer.fileCount :=
    TransferModel.fileCount_setFileStatus _ _ _ _
  have hentry : ∀ r, (w.setFileStatus row .done []).transfer.entry r =
      if r = row ∧ row < w.transfer.fileCount then
        TransferModel.settle (w.transfer.entry r) .done [] else w.transfer.entry r :=
    TransferModel.entry_setFileStatus _ _ _ _
  have hsame : ∀ r, ((w.setFileStatus row .done []).transfer.entry r).id = (w.transfer.entry r).id ∧
      ((w.setFileStatus row .done []).transfer.entry r).size = (w.transfer.entry r).size ∧
      ((w.setFileStatus row .done []).transfer.entry r).localPath =
        (w.transfer.entry r).localPath := by
    intro r
    rw [hentry]
    split <;> exact ⟨rfl, rfl, rfl⟩
  rw [heq]
  constructor
  case ids =>
    intro r hr r' hr' hids
    rw [hcount] at hr hr'
    rw [(hsame r).1, (hsame r').1] at hids
    exact h.ids r hr r' hr' hids
  case measured =>
    intro hb r hr file hf
    rw [hcount] at hr
    rw [(hsame r).2.2] at hf
    rw [(hsame r).2.1]
    exact h.measured hb r hr file hf
  case whole => exact h.whole
  case known => exact h.known
  case current => exact h.current
  case once => exact h.once
  case gone =>
    intro s' hs' hne hsession r hr hids
    rw [hcount] at hr
    rw [(hsame r).1] at hids
    have hgone := h.gone s' hs' hne hsession r hr hids
    rw [hentry]
    split
    · exact FileStatus.noConfusion
    · exact hgone
  case done =>
    intro r hr hd
    rw [hcount] at hr
    rw [(hsame r).1, (hsame r).2.1]
    rw [hentry] at hd
    split at hd
    · rename_i hand
      rw [hand.1]
      exact ⟨s, hs, hrow, hid, hsize, fun _ => hsession, hk⟩
    · exact h.done r hr hd

theorem shipments_append {log l : List LogEntry} (h : ∀ e ∈ l, e.what.shipment? = none) :
    shipments (log ++ l) = shipments log := by
  unfold shipments
  rw [List.filterMap_append, List.filterMap_eq_nil_iff.2 h, List.append_nil]

theorem Aside.drift {A : Outbound → Prop} (hv : Aside A w v)
    (hA : ∀ q, A (.posted q) → q.slot.isTransfer = false) : Drift w v := by
  obtain ⟨l, hl, hentries⟩ := hv.log
  refine .same (by rw [hv.transfer]) (.inl (by rw [hv.service]))
    (fun hb => by rwa [hv.service] at hb) hv.files ?_
  rw [hl]
  refine shipments_append fun e he => ?_
  cases hwhat : e.what with
  | posted q =>
    have hslot := hA q (hwhat ▸ (hentries e he).1)
    unfold Outbound.shipment? QNetworkRequest.shipment?
    simp only
    split
    · rename_i hs
      rw [hs] at hslot
      cases hslot
    · rfl
  | _ => rfl

/-! ## What was posted -/

theorem Posted.keep (h : Posted w) (hlog : ∀ e ∈ w.log, e ∈ v.log)
    (hreplies : ∀ id r, v.replies id = some r → r.request.slot.isTransfer = true →
      ∃ q, w.replies id = some q ∧ q.request = r.request) : Posted v := by
  intro id r hr ht
  obtain ⟨q, hq, heq⟩ := hreplies id r hr ht
  obtain ⟨e, he, hwhat⟩ := h id q hq (heq ▸ ht)
  exact ⟨e, hlog e he, heq ▸ hwhat⟩

theorem Posted.setReply_none (h : Posted w) (id : ReplyId) : Posted (w.setReply id none) := by
  refine h.keep (fun _ he => he) fun j r hr _ => ?_
  by_cases hj : j = id
  · rw [hj, setReply_self] at hr
    cases hr
  · exact ⟨r, (setReply_ne hj none w).symm.trans hr, rfl⟩

theorem Posted.post (h : Posted w) (q : QNetworkRequest) : Posted (w.post q) := by
  intro id r hr ht
  by_cases hid : id = w.nextReply
  · rw [hid, post_self] at hr
    obtain rfl := Option.some.inj hr
    exact ⟨_, List.mem_append_right _ List.mem_cons_self, rfl⟩
  · rw [post_ne hid] at hr
    obtain ⟨e, he, hwhat⟩ := h id r hr ht
    exact ⟨e, List.mem_append_left _ he, hwhat⟩

theorem posted_frame : Frame fun w v => Posted w → Posted v where
  trans h h' hw := h' (h hw)
  noted hn hw := hw.keep (fun _ he => by rwa [hn.log]) fun _ r hr _ => ⟨r, by rwa [← hn.replies], rfl⟩
  service _ _ _ _ _ hw := hw
  abort id _ _ hw := hw.setReply_none id
  post q _ _ hw := hw.post q
  postToPeer _ _ _ _ hw := hw.post _

theorem Posted.aside {A : Outbound → Prop} (h : Posted w) (hv : Aside A w v)
    (hA : ∀ q, A (.posted q) → q.slot.isTransfer = false) : Posted v := by
  obtain ⟨l, hl, -⟩ := hv.log
  refine h.keep (fun e he => hl.symm ▸ List.mem_append_left l he) fun id r hr ht => ?_
  exact (hv.replies id r hr).resolve_right fun ha => by cases (hA _ ha).symm.trans ht

section
variable [Qt]

theorem Posted.step (h : Posted w) (e : SenderEvent) : Posted (w.step e) := by
  by_cases hdisc : e.isDiscovery = true
  · exact h.aside (step_aside hdisc w) fun q hq => hq.unrelated hdisc
  by_cases hreply : e.isReply = true
  · rcases step_reply hreply w with heq | ⟨id, r, certificate, seen, hr, heq⟩ | ⟨id, r, error, status,
      errorString, body, hr, heq⟩
    · rwa [heq]
    · rw [heq]
      refine h.keep (fun e he => List.mem_append_left _ he) fun j q hq _ => ?_
      change (w.setReply id _).replies j = _ at hq
      by_cases hj : j = id
      · rw [hj, setReply_self] at hq
        obtain rfl := Option.some.inj hq
        exact ⟨r, hj ▸ hr, rfl⟩
      · exact ⟨q, (setReply_ne hj _ w).symm.trans hq, rfl⟩
    · rw [heq]
      by_cases ht : r.request.slot.isTransfer = true
      · exact posted_frame.finish (.inl ht) id error status errorString body w (h.setReply_none id)
      · exact (h.setReply_none id).aside
          (finish_aside (eq_false_of_ne_true ht) id error status errorString body w)
          fun q hq => hq.2.2
  cases e with
  | uploadProgress id sent =>
    simp only [Sender.step]
    split <;> exact h
  | hold row =>
    simp only [Sender.step]
    split <;> exact h
  | sendFiles device paths =>
    simp only [Sender.step]
    split
    · exact posted_frame.sendFiles device paths w h
    · exact h
  | submitPin pin => exact posted_frame.submitPin pin w h
  | cancel => exact posted_frame.cancel w h
  | edit e => exact h
  | settings s => exact h
  | files files => exact h
  | tick ms => exact h
  | connects => exact absurd rfl hreply
  | answered => exact absurd rfl hreply
  | fails => exact absurd rfl hreply
  | _ => exact absurd rfl hdisc

omit [Qt] in
/-- The upload that a row is waited for with. -/
theorem Posted.shipped (h : Posted w) (ht : w.Tidy) {id : ReplyId} {r : QNetworkReply}
    (hr : w.replies id = some r) {row : Nat} (hslot : r.request.slot = .uploaded row) :
    ∃ s ∈ shipments w.log, r.request.shipment? = some s ∧ s.row = row ∧
      w.service.currentRow = some row ∧ s.fileId = (w.transfer.entry row).id ∧
        s.size = (w.transfer.entry row).size ∧ s.sessionId = w.service.sessionId := by
  obtain ⟨hcurrent, -, token, bytes, hcontent⟩ := ht.row id r row hr hslot
  obtain ⟨e, he, hwhat⟩ := h id r hr (isTransfer_of_uploaded hslot)
  have hs : r.request.shipment? = some ⟨w.service.sessionId, (w.transfer.entry row).id,
      (w.transfer.entry row).size, row, bytes⟩ := by
    unfold QNetworkRequest.shipment?
    rw [hcontent, hslot]
  refine ⟨_, List.mem_filterMap.2 ⟨e, he, ?_⟩, hs, rfl, hcurrent, rfl, rfl, rfl⟩
  rw [hwhat]
  exact hs

omit [Qt] in
theorem setReply_drift (id : ReplyId) (r : Option QNetworkReply) (w : Sender) :
    Drift w (w.setReply id r) := .same rfl (.inl rfl) (fun hb => hb) rfl rfl

/-! ## Every event -/

/-- An answer of success grants a new session, or vouches for an upload. -/
theorem Books.finish (h : Books G K w) (ht : w.Tidy) (hposted : Posted w) (hoffer : w.Offering)
    (hG : ∀ s, G s → G' s)
    (hK : ∀ s, K s → K' s) {id : ReplyId} {r : QNetworkReply} (hr : w.replies id = some r)
    {error : Bool} {status : Nat} {body : QByteArray}
    (hgrants : status = 200 → r.request.slot = .prepared → ∀ response, Qt.fromJson body = some response →
      (response.value (str "sessionId")).toString [] ≠ [] →
        ¬ G ((response.value (str "sessionId")).toString []) ∧
          G' ((response.value (str "sessionId")).toString []))
    (hvouches : error = false → 200 ≤ status → status < 300 →
      ∀ s, r.request.shipment? = some s → K' s) (errorString : QString) :
    Books G' K' (w.finish id r error status errorString body) := by
  by_cases hslot : r.request.slot.isTransfer = true
  · obtain ⟨-, hb⟩ := ht.waited id r hr hslot
    have hv : Books G K' (w.setReply id none) :=
      (h.drift (setReply_drift id none w)).mono (fun _ hg => hg) hK
    have hvb : (w.setReply id none).service.busy = true := hb
    unfold Sender.finish
    simp only
    split
    case h_5 hs =>
      rcases onPrepareFinished_moves hvb id error status body with
        hd | ⟨h200, response, sessionId, hresponse, hsession, u, hu, hm⟩
      · exact (hv.drift hd).mono hG fun _ hk => hk
      · refine ((hv.drift hu).session (hu.undone (hoffer id r hr hs)) (fun hne => ?_) hG).moves hm
        subst hsession
        exact hgrants h200 hs response hresponse hne
    case h_6 row hs =>
      obtain ⟨s, hmem, hshipment, hrow, hcurrent, hid, hsize, hsession⟩ := hposted.shipped ht hr hs
      rcases onUploadFinished_moves hvb id error status errorString with
        hm | ⟨hle, hlt, herror, u, hu, hsame, hm⟩
      · exact (hv.moves hm).mono hG fun _ hk => hk
      · have hcurrent' : u.service.currentRow = some row := by
          rw [hsame]
          exact hcurrent
        refine (((hv.drift hu).success hcurrent' (hu.shipments.symm ▸ hmem) hrow ?_ ?_ ?_
          (hvouches herror hle hlt s hshipment)).moves hm).mono hG fun _ hk => hk
        · exact hid.trans (hu.rows row).id.symm
        · exact hsize.trans (hu.rows row).size.symm
        · rw [hsame]
          exact hsession
    all_goals
      rename_i hs
      rw [hs] at hslot
      cases hslot
  · have hv := finish_aside (eq_false_of_ne_true hslot) id error status errorString body w
    exact ((h.drift (setReply_drift id none w)).drift (hv.drift fun q hq => hq.2.2)).mono hG hK

/-- The file list is posted, which ships nothing. -/
theorem requestUpload_drift (pin : QString) (w : Sender) : Drift w (w.requestUpload pin) :=
  .same rfl (.inl rfl) (fun hb => hb) rfl (shipments_append (fun e he => by
    rw [List.mem_singleton.1 he]
    rfl))

theorem submitPin_drift (pin : QString) (w : Sender) : Drift w (w.submitPin pin) := by
  unfold submitPin
  split
  · exact .refl w
  · extract_lets s v
    have hv : Drift w v := .same rfl (.inl rfl) (fun hb => hb) rfl rfl
    exact (hv.trans (setState_drift .requesting [] v)).trans (requestUpload_drift pin _)

omit [Qt] in
/-- The position in the list, which the id begins with, makes it unique. -/
theorem number_dash_inj {i j : Nat} {s t : QString}
    (h : QString.number i ++ [45] ++ s = QString.number j ++ [45] ++ t) : i = j := by
  have htake : ∀ (n : Nat) (u : QString),
      (QString.number n ++ [45] ++ u).takeWhile (fun c => QString.isDigit c) = QString.number n := by
    intro n u
    rw [List.append_assoc, List.takeWhile_append_of_pos fun c hc => QString.number_digits hc]
    simp [QString.isDigit]
  have hnumber := (htake i s).symm.trans ((congrArg _ h).trans (htake j t))
  rw [← QString.digitsValue_number i, hnumber, QString.digitsValue_number]

omit [Qt] in
/-- Each entry is numbered by the position of its file, and states the size it has now. -/
theorem fileEntries_made (i : Nat) (paths : List QString) (w : Sender) :
    (fileEntries i paths w).1.Pairwise (fun f f' => f.id ≠ f'.id) ∧
      (∀ f ∈ (fileEntries i paths w).1, ∃ j s, i ≤ j ∧ f.id = QString.number j ++ [45] ++ s) ∧
      ∀ f ∈ (fileEntries i paths w).1, ∀ file, w.files f.localPath = some file →
        file.content.length = f.size := by
  induction paths generalizing i w with
  | nil => exact ⟨.nil, nofun, nofun⟩
  | cons path paths ih =>
    unfold fileEntries
    cases hfile : w.files path with
    | none =>
      obtain ⟨hpairs, hids, hsizes⟩ := ih (i + 1) w
      refine ⟨hpairs, fun f hf => ?_, hsizes⟩
      obtain ⟨j, s, hle, hid⟩ := hids f hf
      exact ⟨j, s, Nat.le_of_succ_le hle, hid⟩
    | some file =>
      obtain ⟨hpairs, hids, hsizes⟩ := ih (i + 1) w.generateToken.2
      refine ⟨List.pairwise_cons.2 ⟨fun f hf heq => ?_, hpairs⟩, fun f hf => ?_, fun f hf => ?_⟩
      · obtain ⟨j, s, hle, hid⟩ := hids f hf
        have hsame := number_dash_inj (heq.trans hid)
        omega
      · rcases List.mem_cons.1 hf with rfl | hf
        · exact ⟨i, _, Nat.le_refl i, rfl⟩
        · obtain ⟨j, s, hle, hid⟩ := hids f hf
          exact ⟨j, s, Nat.le_of_succ_le hle, hid⟩
      · rcases List.mem_cons.1 hf with rfl | hf
        · intro file' hfile'
          obtain rfl := Option.some.inj (hfile.symm.trans hfile')
          rfl
        · exact hsizes f hf

omit [Qt] in
theorem fileEntries_drift (i : Nat) (paths : List QString) (w : Sender) :
    Drift w (fileEntries i paths w).2 := by
  induction paths generalizing i w with
  | nil => exact .refl w
  | cons path paths ih =>
    unfold fileEntries
    cases w.files path with
    | none => exact ih (i + 1) w
    | some file => exact (generateToken_drift w).trans (ih (i + 1) _)

omit [Qt] in
/-- Other rows take the place of those there were. -/
theorem Books.renew (h : Books G K w) {entries : List FileEntry} (hentries : v.transfer.files = entries)
    (hpairs : entries.Pairwise fun f f' => f.id ≠ f'.id)
    (hsizes : ∀ f ∈ entries, ∀ file, w.files f.localPath = some file → file.content.length = f.size)
    (hwait : ∀ f ∈ entries, f.status = .waiting)
    (hsession : v.service.sessionId = [] ∨
      v.service.sessionId = w.service.sessionId ∧ entries = [])
    (hfiles : v.files = w.files) (hlog : v.log = w.log) : Books G K v := by
  subst hentries
  have hsize := TransferModel.forall_files.1 hsizes
  have hwaits := TransferModel.forall_files.1 hwait
  constructor
  case ids =>
    intro row hrow row' hrow' heq
    by_contra hne
    have hentry : ∀ r, (hr : r < v.transfer.files.length) → v.transfer.entry r = v.transfer.files[r] :=
      fun r hr => List.getD_eq_getElem _ _ hr
    rw [hentry row hrow, hentry row' hrow'] at heq
    rcases Nat.lt_or_gt_of_ne hne with hlt | hgt
    · exact List.pairwise_iff_getElem.1 hpairs row row' hrow hrow' hlt heq
    · exact List.pairwise_iff_getElem.1 hpairs row' row hrow' hrow hgt heq.symm
  case measured => exact fun _ row hrow file hfile => hsize row hrow file (hfiles ▸ hfile)
  case whole => exact hlog ▸ h.whole
  case known => exact hlog ▸ h.known
  case current =>
    intro hne
    rcases hsession with hnil | ⟨hsame, -⟩
    · exact absurd hnil hne
    · rw [hsame] at hne ⊢
      exact h.current hne
  case once => exact hlog ▸ h.once
  case gone =>
    intro s hs hne heq row hrow
    rcases hsession with hnil | ⟨-, hnone⟩
    · exact absurd (heq.trans hnil) hne
    · rw [TransferModel.fileCount, hnone] at hrow
      exact absurd hrow (Nat.not_lt_zero row)
  case done =>
    intro row hrow hd
    rw [hwaits row hrow] at hd
    cases hd

theorem Books.sendFiles (h : Books G K w) (device : DeviceInfo) (paths : List QString) :
    Books G K (w.sendFiles device paths) := by
  unfold Sender.sendFiles
  extract_lets peer
  split
  · exact h
  · split
    · refine Books.drift ?_ (setState_drift .failed (str "This device is blocked") _)
      exact h.renew rfl .nil nofun nofun (.inr ⟨rfl, rfl⟩) rfl rfl
    · obtain ⟨hpairs, -, hsizes⟩ := fileEntries_made 0 paths w
      have hrows := fileEntries_rows 0 paths w
      have hdrift := fileEntries_drift 0 paths w
      rcases hv : fileEntries 0 paths w with ⟨entries, v⟩
      rw [hv] at hpairs hsizes hrows hdrift
      simp only
      split
      · exact h.drift hdrift
      · have hbegun : Books G K (v.beginSending peer entries) :=
          (h.drift hdrift).renew (v := v.beginSending peer entries) rfl hpairs
            (fun f hf file hfile => hsizes f hf file (hdrift.files ▸ hfile))
            (fun f hf => (hrows f hf).1) (.inl rfl) rfl rfl
        exact (hbegun.drift (setState_drift .requesting [] _)).drift (requestUpload_drift [] _)

omit [Qt] in
theorem Books.same (h : Books G K w) (htransfer : v.transfer = w.transfer)
    (hservice : v.service = w.service) (hfiles : v.files = w.files) (hlog : v.log = w.log) :
    Books G K v :=
  h.drift (.same (by rw [htransfer]) (.inl (by rw [hservice])) (fun hb => by rwa [hservice] at hb)
    hfiles (by rw [hlog]))

theorem Books.step (h : Books G K w) (ht : w.Tidy) (hposted : Posted w) (hoffer : w.Offering)
    {e : SenderEvent} (hi : w.Intact e) (hG : ∀ s, G s → G' s) (hK : ∀ s, K s → K' s)
    (he : w.Promised G G' K' e) :
    Books G' K' (w.step e) := by
  have keep : ∀ {v : Sender}, Books G K v → Books G' K' v := fun hv => hv.mono hG hK
  by_cases hdisc : e.isDiscovery = true
  · exact keep (h.drift ((step_aside hdisc w).drift fun q hq => hq.unrelated hdisc))
  have fails : ∀ {id : ReplyId} {r : QNetworkReply}, w.replies id = some r → ∀ errorString,
      Books G' K' (w.finish id r true 0 errorString []) := fun {id r} hr errorString =>
    h.finish ht hposted hoffer hG hK hr (fun hx => by cases hx) (fun hx => by cases hx) errorString
  cases e with
  | connects id certificate reported =>
    simp only [Sender.step]
    cases hr : w.replies id with
    | none => exact keep h
    | some r =>
      simp only [connect]
      split
      · exact keep h
      · split
        · refine keep ((h.drift (setReply_drift id _ w)).drift (.same rfl (.inl rfl)
            (fun hb => hb) rfl (shipments_append fun e he => ?_)))
          rw [List.mem_singleton.1 he]
          rfl
        · exact fails hr _
  | answered id error status errorString body =>
    simp only [Sender.step]
    cases hr : w.replies id with
    | none => exact keep h
    | some r =>
      simp only
      split
      · rename_i hsent
        refine h.finish ht hposted hoffer hG hK hr (fun h200 hs response hresponse hne => ?_)
          (fun herror hle hlt s hs => ?_) errorString
        · subst h200
          exact he.grants id r error errorString body rfl hr hsent hs response hresponse hne
        · subst herror
          exact he.vouches id r status errorString body rfl hr hsent hle hlt s hs
      · exact keep h
  | fails id errorString =>
    simp only [Sender.step]
    cases hr : w.replies id with
    | none => exact keep h
    | some r => exact fails hr _
  | uploadProgress id sent =>
    simp only [Sender.step]
    split
    · rename_i row _ _
      refine keep (h.drift ⟨?_, fun r => ?_, .inl rfl, fun hb => hb, rfl, rfl⟩)
      · exact TransferModel.fileCount_congr (TransferModel.alike_setFileTransferred _ _ _).declared
      · obtain ⟨n, hn⟩ := TransferModel.entry_setFileTransferred w.transfer row sent r
        change FileEntry.Fades _ ((w.transfer.setFileTransferred row sent).entry r)
        rw [hn]
        exact ⟨rfl, rfl, rfl, .inl rfl⟩
    · exact keep h
  | hold row =>
    simp only [Sender.step]
    split
    · exact keep (h.same rfl rfl rfl rfl)
    · exact keep h
  | sendFiles device paths =>
    simp only [Sender.step]
    split
    · exact keep (h.sendFiles device paths)
    · exact keep h
  | submitPin pin => exact keep (h.drift (submitPin_drift pin w))
  | cancel => exact keep (h.drift (cancel_drift w))
  | edit e => exact keep (h.same rfl rfl rfl rfl)
  | settings s => exact keep (h.same rfl rfl rfl rfl)
  | files files =>
    refine keep ⟨h.ids, fun hb row hrow file hfile => ?_, h.whole, h.known, h.current, h.once, h.gone,
      h.done⟩
    exact h.measured hb row hrow file ((hi hb row hrow).symm.trans hfile)
  | tick ms => exact keep (h.same rfl rfl rfl rfl)
  | _ => exact absurd rfl hdisc

omit [Qt] in
theorem Start.books (h : w.Start) : Books G K w := by
  have hrows : ∀ row, ¬ row < w.transfer.fileCount := fun row => by
    rw [h.transfer]
    exact Nat.not_lt_zero row
  have hlog : shipments w.log = [] := by rw [h.log]; rfl
  constructor
  case ids => exact fun row hrow => absurd hrow (hrows row)
  case measured => exact fun _ row hrow => absurd hrow (hrows row)
  case current =>
    intro hne
    rw [h.service] at hne
    exact absurd rfl hne
  case done => exact fun row hrow => absurd hrow (hrows row)
  all_goals
    rw [hlog]
    exact nofun

end

end LocalSend.Sender
