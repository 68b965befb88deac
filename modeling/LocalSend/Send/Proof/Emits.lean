import LocalSend.Send.Run

/-!
# What a step can send

`Emits A w v`: from `w` to `v` nothing left the device but what `A` allows, and no request came up
that was not posted. One lemma per function, and from them `step_emits`: what each event can send
(`Sends`), to whom, and under which of the checks of the source.
-/

set_option autoImplicit false

namespace LocalSend

/-- What finds devices, and is found by them. -/
def SenderEvent.isDiscovery : SenderEvent → Bool
  | .datagram .. | .register .. | .announceTimer | .burst | .start _ | .stop | .refresh _ => true
  | .addDeviceAt .. | .scanSubnet _ | .cancelScan => true
  | _ => false

namespace Sender

structure Emits (A : Outbound → Prop) (w v : Sender) : Prop where
  held : ∀ row ∈ w.held, row ∈ v.held
  log : ∃ l, v.log = w.log ++ l ∧ ∀ e ∈ l, A e.what ∧ e.known = w.known ∧
    e.encrypted = w.settings.isEncrypted
  replies : ∀ id r, v.replies id = some r →
    (∃ r', w.replies id = some r' ∧ r'.request = r.request) ∨ A (.posted r.request)

/-- The transfer under way is still the same one, or over. -/
structure Calm (A : Outbound → Prop) (w v : Sender) : Prop extends Emits A w v where
  peer : v.service.peer = w.service.peer
  busy : v.service.busy = true → w.service.busy = true

/-- What the log would say of the moment is the same, too. -/
structure Steady (A : Outbound → Prop) (w v : Sender) : Prop extends Calm A w v where
  known : v.known = w.known
  settings : v.settings = w.settings

variable {A B : Outbound → Prop} {u v w : Sender}

theorem Emits.mono (h : Emits A w v) (hle : ∀ o, A o → B o) : Emits B w v := by
  obtain ⟨l, hl, hA⟩ := h.log
  exact ⟨h.held, ⟨l, hl, fun e he => ⟨hle _ (hA e he).1, (hA e he).2⟩⟩,
    fun id r hr => (h.replies id r hr).imp_right (hle _)⟩

theorem Calm.mono (h : Calm A w v) (hle : ∀ o, A o → B o) : Calm B w v :=
  ⟨h.toEmits.mono hle, h.peer, h.busy⟩

theorem Steady.mono (h : Steady A w v) (hle : ∀ o, A o → B o) : Steady B w v :=
  ⟨h.toCalm.mono hle, h.known, h.settings⟩

theorem Steady.emits (h : Steady A u v) (h' : Emits A v w) : Emits A u w := by
  obtain ⟨l, hl, hA⟩ := h.log
  obtain ⟨l', hl', hA'⟩ := h'.log
  refine ⟨fun row hr => h'.held row (h.held row hr), ⟨l ++ l', ?_, fun e he => ?_⟩,
    fun id r hr => ?_⟩
  · rw [hl', hl, List.append_assoc]
  · rcases List.mem_append.1 he with he | he
    · exact hA e he
    · obtain ⟨ha, hk, hs⟩ := hA' e he
      rw [h.known] at hk
      rw [h.settings] at hs
      exact ⟨ha, hk, hs⟩
  · rcases h'.replies id r hr with ⟨r', hr', he⟩ | ha
    · rcases h.replies id r' hr' with ⟨r'', hr'', he'⟩ | ha
      · exact .inl ⟨r'', hr'', he'.trans he⟩
      · rw [he] at ha
        exact .inr ha
    · exact .inr ha

theorem Steady.calm (h : Steady A u v) (h' : Calm A v w) : Calm A u w :=
  ⟨h.emits h'.toEmits, h'.peer.trans h.peer, fun hb => h.busy (h'.busy hb)⟩

theorem Steady.trans (h : Steady A u v) (h' : Steady A v w) : Steady A u w :=
  ⟨h.calm h'.toCalm, h'.known.trans h.known, h'.settings.trans h.settings⟩

/-- After a change of the trust record, steps that send nothing. -/
theorem Calm.quiet (h : Calm A u v) (h' : Calm (fun _ => False) v w) : Calm A u w := by
  obtain ⟨l, hl, hA⟩ := h.log
  obtain ⟨l', hl', hA'⟩ := h'.log
  have hnil : l' = [] := List.eq_nil_iff_forall_not_mem.2 fun e he => (hA' e he).1
  refine ⟨⟨fun row hr => h'.held row (h.held row hr), ⟨l, ?_, hA⟩, fun id r hr => ?_⟩,
    h'.peer.trans h.peer, fun hb => h.busy (h'.busy hb)⟩
  · rw [hl', hl, hnil, List.append_nil]
  · obtain ⟨r', hr', he⟩ := (h'.replies id r hr).resolve_right not_false
    rw [← he]
    exact h.replies id r' hr'

/-- Nothing is sent by a change of anything else. -/
theorem Calm.same (held : v.held = w.held) (log : v.log = w.log) (replies : v.replies = w.replies)
    (peer : v.service.peer = w.service.peer)
    (busy : v.service.busy = true → w.service.busy = true) : Calm A w v := by
  refine ⟨⟨fun row hr => held ▸ hr, ⟨[], by rw [log, List.append_nil], fun e he => ?_⟩,
    fun id r hr => .inl ⟨r, replies ▸ hr, rfl⟩⟩, peer, busy⟩
  cases he

theorem Steady.refl (w : Sender) : Steady A w w := ⟨.same rfl rfl rfl rfl id, rfl, rfl⟩

theorem emit_steady {what : Outbound} (h : A what) (w : Sender) : Steady A w (w.emit what) := by
  refine ⟨⟨⟨fun row hr => hr, ⟨_, rfl, fun e he => ?_⟩, fun id r hr => .inl ⟨r, hr, rfl⟩⟩, rfl, id⟩,
    rfl, rfl⟩
  rw [List.mem_singleton] at he
  rw [he]
  exact ⟨h, rfl, rfl⟩

/-- A reply that is gone, or stands for the same request, or for one that is posted. -/
theorem setReply_steady {id : ReplyId} {r : Option QNetworkReply} (w : Sender)
    (h : ∀ r', r = some r' → (∃ q, w.replies id = some q ∧ q.request = r'.request) ∨
      A (.posted r'.request)) : Steady A w (w.setReply id r) := by
  refine ⟨⟨⟨fun row hr => hr, ⟨[], by rw [List.append_nil]; rfl, fun e he => by cases he⟩,
    fun id' r' hr => ?_⟩, rfl, fun hb => hb⟩, rfl, rfl⟩
  unfold setReply at hr
  rcases eq_or_ne id' id with rfl | hne
  · simp only [Function.update_self] at hr
    exact h r' hr
  · simp only [Function.update_of_ne hne] at hr
    exact .inl ⟨r', hr, rfl⟩

theorem post_steady {r : QNetworkRequest} (h : A (.posted r)) (w : Sender) :
    Steady A w (w.post r) := by
  have hs : Steady A w (w.setReply w.nextReply (some { request := r })) := by
    refine setReply_steady w fun r' hr => .inr ?_
    cases hr
    exact h
  have hn : Steady A (w.setReply w.nextReply (some { request := r }))
      { w.setReply w.nextReply (some { request := r }) with nextReply := w.nextReply + 1 } :=
    ⟨.same rfl rfl rfl rfl (fun hb => hb), rfl, rfl⟩
  exact (hs.trans hn).trans (emit_steady h _)

/-! ## What is none of the transfer's business -/

/-- The transfer is left alone, and so are the requests that are under way. -/
structure Aside (A : Outbound → Prop) (w v : Sender) : Prop extends Steady A w v where
  service : v.service = w.service
  transfer : v.transfer = w.transfer
  signals : v.signals = w.signals
  files : v.files = w.files
  next : w.nextReply ≤ v.nextReply
  kept : ∀ id < w.nextReply, v.replies id = w.replies id
  unposted : ∀ id, v.nextReply ≤ id → v.replies id = w.replies id

theorem Aside.mono (h : Aside A w v) (hle : ∀ o, A o → B o) : Aside B w v :=
  ⟨h.toSteady.mono hle, h.service, h.transfer, h.signals, h.files, h.next, h.kept, h.unposted⟩

theorem Aside.trans (h : Aside A u v) (h' : Aside A v w) : Aside A u w where
  toSteady := h.toSteady.trans h'.toSteady
  service := h'.service.trans h.service
  transfer := h'.transfer.trans h.transfer
  signals := h'.signals.trans h.signals
  files := h'.files.trans h.files
  next := Nat.le_trans h.next h'.next
  kept id hid := (h'.kept id (Nat.lt_of_lt_of_le hid h.next)).trans (h.kept id hid)
  unposted id hid := (h'.unposted id hid).trans (h.unposted id (Nat.le_trans h'.next hid))

theorem Aside.refl (w : Sender) : Aside A w w :=
  ⟨.refl w, rfl, rfl, rfl, rfl, Nat.le_refl _, fun _ _ => rfl, fun _ _ => rfl⟩

theorem emit_aside {what : Outbound} (h : A what) (w : Sender) : Aside A w (w.emit what) :=
  ⟨emit_steady h w, rfl, rfl, rfl, rfl, Nat.le_refl _, fun _ _ => rfl, fun _ _ => rfl⟩

theorem post_aside {r : QNetworkRequest} (h : A (.posted r)) (w : Sender) :
    Aside A w (w.post r) where
  toSteady := post_steady h w
  service := rfl
  transfer := rfl
  signals := rfl
  files := rfl
  next := Nat.le_succ _
  kept _ hid := Function.update_of_ne (Nat.ne_of_lt hid) _ _
  unposted _ hid := Function.update_of_ne (Nat.ne_of_gt hid) _ _

theorem foldl_aside {α : Type} {f : Sender → α → Sender} (hf : ∀ w a, Aside A w (f w a)) :
    ∀ (l : List α) (w : Sender), Aside A w (l.foldl f w)
  | [], w => .refl w
  | a :: l, w => (hf w a).trans (foldl_aside hf l _)

/-! ## Finding devices -/

/-- What goes out to nobody in particular: an announcement, or a probe of an address. -/
def Probing : Outbound → Prop
  | .announced => True
  | .posted r => r.policy = .acceptUnknown ∧ (∃ body, r.content = .introduction body) ∧
    r.slot.isTransfer = false
  | _ => False

/-- The answer to an announcement of `peer`. -/
def Answering (peer : DeviceInfo) : Outbound → Prop
  | .answered address fingerprint => address = peer.address ∧ fingerprint = peer.fingerprint
  | .posted r => ∃ body, r = requestTo peer (.introduction body) .registered
  | _ => False

section
variable [Qt]

theorem probe_aside (host : QString) (port : Int) (scheme : QString) {slot : ReplySlot}
    (hs : slot.isTransfer = false) (w : Sender) :
    Aside Probing w (w.probe host port scheme slot) := post_aside ⟨rfl, ⟨_, rfl⟩, hs⟩ w

theorem probeBoth_aside (host : QString) (port : Int) {slot : ReplySlot}
    (hs : slot.isTransfer = false) (w : Sender) :
    Aside Probing w (w.probeBoth host port slot) :=
  (probe_aside _ _ _ hs w).trans (probe_aside _ _ _ hs _)

theorem upsert_aside (peer : DeviceInfo) (w : Sender) : Aside A w (w.upsert peer) :=
  ⟨⟨.same rfl rfl rfl rfl id, rfl, rfl⟩, rfl, rfl, rfl, rfl, Nat.le_refl _, fun _ _ => rfl,
    fun _ _ => rfl⟩

omit [Qt] in
/-- A change of the list of devices, or of what `Discovery` remembers. -/
theorem discovery_aside (d : Discovery) (m : DeviceModel) (w : Sender) :
    Aside A w { w with discovery := d, devices := m } :=
  ⟨⟨.same rfl rfl rfl rfl id, rfl, rfl⟩, rfl, rfl, rfl, rfl, Nat.le_refl _, fun _ _ => rfl,
    fun _ _ => rfl⟩

theorem acceptRegisterReply_aside (r : QNetworkReply) (error : Bool) (body : QByteArray)
    (w : Sender) : Aside A w (w.acceptRegisterReply r error body).2 := by
  unfold acceptRegisterReply
  split
  · exact .refl w
  · split
    · exact .refl w
    · simp only
      split_ifs
      · exact .refl w
      · exact .refl w
      · exact upsert_aside _ w

theorem announce_aside (w : Sender) : Aside Probing w w.announce := by
  have h₁ : Aside Probing w w.sendAnnouncement := by
    unfold sendAnnouncement
    split
    · exact emit_aside trivial w
    · exact .refl w
  have h₂ : Aside Probing w.sendAnnouncement w.sendAnnouncement.refreshManualDevices := by
    refine foldl_aside (fun w endpoint => ?_) _ _
    obtain ⟨host, port⟩ := endpoint
    simp only
    split
    · exact .refl w
    · exact probeBoth_aside _ _ rfl w
  exact (h₁.trans h₂).trans (discovery_aside _ _ _)

theorem startDiscovery_aside (binds : Bool) (w : Sender) :
    Aside Probing w (w.startDiscovery binds) := by
  unfold startDiscovery
  split
  · exact .refl w
  · extract_lets d v
    have hv : Aside Probing w v := discovery_aside _ _ w
    split
    · exact (hv.trans (announce_aside v)).trans (discovery_aside _ _ _)
    · exact hv

theorem burst_aside (w : Sender) : Aside Probing w w.burst := by
  unfold burst
  split
  · exact .refl w
  · exact (discovery_aside _ _ w).trans (announce_aside _)

omit [Qt] in
theorem stopDiscovery_aside (w : Sender) : Aside A w w.stopDiscovery := by
  unfold stopDiscovery
  split
  · exact .refl w
  · exact discovery_aside _ _ w

theorem refresh_aside (binds : Bool) (w : Sender) : Aside Probing w (w.refresh binds) := by
  unfold refresh
  split
  · exact announce_aside w
  · exact startDiscovery_aside binds w

theorem respondTo_aside (peer : DeviceInfo) (w : Sender) :
    Aside (Answering peer) w (w.respondTo peer) := by
  unfold respondTo
  split
  · exact .refl w
  · extract_lets table d v u
    have hv : Aside (Answering peer) w v := discovery_aside _ _ w
    have hu : Aside (Answering peer) v u := by
      simp only [u]
      split
      · exact emit_aside ⟨rfl, rfl⟩ v
      · exact .refl v
    have hp : Aside (Answering peer) u (u.postRegister peer) := by
      unfold postRegister
      split
      · exact .refl u
      · exact post_aside ⟨_, rfl⟩ u
    exact (hv.trans hu).trans hp

theorem onRegisterFinished_aside (r : QNetworkReply) (error : Bool) (body : QByteArray)
    (w : Sender) : Aside A w (w.onRegisterFinished r error body) := by
  unfold onRegisterFinished
  split
  · exact .refl w
  · split
    · exact .refl w
    · simp only
      split
      · exact .refl w
      · exact upsert_aside _ w

theorem registerPeer_aside (payload : QJsonObject) (address : QString) (w : Sender) :
    Aside A w (w.registerPeer payload address) := by
  unfold registerPeer
  simp only
  split
  · exact .refl w
  · exact upsert_aside _ w

theorem addDeviceAt_aside (host : QString) (port : Int) (w : Sender) :
    Aside Probing w (w.addDeviceAt host port) := by
  unfold addDeviceAt
  split
  · exact .refl w
  · exact (discovery_aside _ _ w).trans (probeBoth_aside _ _ rfl _)

theorem onManualReplyFinished_aside (r : QNetworkReply) (error : Bool) (body : QByteArray)
    (w : Sender) : Aside A w (w.onManualReplyFinished r error body) := by
  unfold onManualReplyFinished
  extract_lets d v
  have hv : Aside A w v := discovery_aside _ _ w
  split
  · exact hv
  · have ha := acceptRegisterReply_aside (A := A) r error body v
    rcases hr : v.acceptRegisterReply r error body with ⟨ok, u⟩
    rw [hr] at ha
    simp only
    split
    · exact (hv.trans ha).trans (discovery_aside _ _ u)
    · exact hv.trans ha

theorem pumpQueue_aside (queue : List (QString × QString)) (w : Sender) :
    Aside Probing w (pumpQueue queue w) := by
  induction queue generalizing w with
  | nil => exact discovery_aside _ _ w
  | cons target rest ih =>
    obtain ⟨scheme, host⟩ := target
    unfold pumpQueue
    split
    · exact ((probe_aside _ _ _ rfl w).trans (discovery_aside _ _ _)).trans (ih _)
    · exact discovery_aside _ _ w

theorem pumpScanQueue_aside (w : Sender) : Aside Probing w w.pumpScanQueue := by
  unfold pumpScanQueue
  extract_lets v
  have hv : Aside Probing w v := by
    simp only [v]
    split
    · exact pumpQueue_aside _ w
    · exact .refl w
  split
  · exact hv.trans (discovery_aside _ _ v)
  · exact hv

theorem scanSubnet_aside (mine : List QString) (w : Sender) :
    Aside Probing w (w.scanSubnet mine) := by
  unfold scanSubnet
  split
  · exact .refl w
  · extract_lets queue d v
    have hv : Aside Probing w v := discovery_aside _ _ w
    split
    · exact hv
    · exact (hv.trans (discovery_aside _ _ v)).trans (pumpScanQueue_aside _)

theorem onScanReplyFinished_aside (r : QNetworkReply) (error : Bool) (body : QByteArray)
    (w : Sender) : Aside Probing w (w.onScanReplyFinished r error body) := by
  unfold onScanReplyFinished
  exact ((discovery_aside _ _ w).trans (acceptRegisterReply_aside r error body _)).trans
    (pumpScanQueue_aside _)

omit [Qt] in
theorem cancelScan_aside (w : Sender) : Aside A w w.cancelScan := by
  unfold cancelScan
  split
  · exact .refl w
  · extract_lets d v
    have hv : Aside A w v := discovery_aside _ _ w
    split
    · exact hv.trans (discovery_aside _ _ v)
    · exact hv

/-- Whoever sent this payload from this address. -/
def announcer (payload : QJsonObject) (address : QString) : DeviceInfo :=
  { DeviceInfo.fromPayload payload with address := address }

/-- The announcement gets an answer. -/
structure Announces (w : Sender) (payload : QJsonObject) (address : QString) : Prop where
  isValid : (announcer payload address).isValid = true
  other : (announcer payload address).fingerprint ≠ w.settings.fingerprint
  announce : (payload.value (str "announce")).toBool false = true
  isCooling : w.isCooling address = false

theorem handlePayload_aside (payload : QJsonObject) (address : QString) (w : Sender) :
    Aside (fun o => w.Announces payload address ∧ Answering (announcer payload address) o) w
      (w.handlePayload payload address) := by
  unfold handlePayload
  extract_lets peer peer' v
  split
  · exact .refl w
  · rename_i hpeer
    obtain ⟨hvalid, hown⟩ := not_or.1 hpeer
    have hv : Aside (fun o => w.Announces payload address ∧
        Answering (announcer payload address) o) w v := upsert_aside peer' w
    split
    · rename_i hannounce
      by_cases hc : w.isCooling address = true
      · have hsame : v.respondTo peer' = v := by
          unfold respondTo
          exact if_pos hc
        rw [hsame]
        exact hv
      · refine hv.trans ((respondTo_aside peer' v).mono fun o ho => ⟨?_, ho⟩)
        exact ⟨not_not.1 hvalid, hown, hannounce, eq_false_of_ne_true hc⟩
    · exact hv

/-! ## Sending files -/

end

section

/-- The file list for `peer`. -/
def Asking (peer : DeviceInfo) : Outbound → Prop
  | .posted r => ∃ pin body, r = requestTo peer (.fileList pin body) .prepared
  | _ => False

/-- A file for `peer`. -/
def Uploading (peer : DeviceInfo) : Outbound → Prop
  | .posted r => ∃ sessionId fileId token length bytes row,
    r = requestTo peer (.fileBytes sessionId fileId token length bytes) (.uploaded row)
  | _ => False

def Cancelling (peer : DeviceInfo) : Outbound → Prop
  | .posted r => ∃ sessionId, r = requestTo peer (.cancellation sessionId) .ignored
  | _ => False

/-- A change of the rows, and of what the service notes down of the transfer. -/
theorem transfer_steady (t : TransferModel) (s : SendService) (hp : s.peer = w.service.peer)
    (hb : s.busy = true → w.service.busy = true) :
    Steady A w { w with transfer := t, service := s } :=
  ⟨.same rfl rfl rfl hp hb, rfl, rfl⟩

/-- Finding devices is none of the transfer's business. -/
structure Apart (w v : Sender) : Prop where
  settings : v.settings = w.settings
  devices : v.devices = w.devices
  discovery : v.discovery = w.discovery
  now : v.now = w.now

theorem Apart.refl (w : Sender) : Apart w w := ⟨rfl, rfl, rfl, rfl⟩

theorem Apart.trans (h : Apart u v) (h' : Apart v w) : Apart u w where
  settings := h'.settings.trans h.settings
  devices := h'.devices.trans h.devices
  discovery := h'.discovery.trans h.discovery
  now := h'.now.trans h.now

/-- The requests are the same ones, and the service goes on with the transfer or leaves it. -/
structure Noted (w v : Sender) : Prop extends Apart w v where
  held : v.held = w.held
  log : v.log = w.log
  known : v.known = w.known
  replies : v.replies = w.replies
  nextReply : v.nextReply = w.nextReply
  peer : v.service.peer = w.service.peer
  currentFile : v.service.currentFile = w.service.currentFile ∨ v.service.currentFile = none
  reply : v.service.reply = w.service.reply ∨ v.service.reply = none
  cancelled : v.service.cancelled = w.service.cancelled
  busy : v.service.busy = w.service.busy ∨ v.service.busy = false
  declared : v.transfer.declared = w.transfer.declared

theorem Noted.steady (h : Noted w v) : Steady A w v := by
  refine ⟨.same h.held h.log h.replies h.peer fun hb => ?_, h.known, h.settings⟩
  rcases h.busy with hbusy | hbusy
  · exact hbusy.symm.trans hb
  · cases hb.symm.trans hbusy

theorem Noted.refl (w : Sender) : Noted w w :=
  ⟨.refl w, rfl, rfl, rfl, rfl, rfl, rfl, .inl rfl, .inl rfl, rfl, .inl rfl, rfl⟩

theorem Noted.trans (h : Noted u v) (h' : Noted v w) : Noted u w where
  toApart := h.toApart.trans h'.toApart
  held := h'.held.trans h.held
  log := h'.log.trans h.log
  known := h'.known.trans h.known
  replies := h'.replies.trans h.replies
  nextReply := h'.nextReply.trans h.nextReply
  peer := h'.peer.trans h.peer
  currentFile := by
    rcases h'.currentFile with hf | hf
    · exact h.currentFile.imp hf.trans hf.trans
    · exact .inr hf
  reply := by
    rcases h'.reply with hr | hr
    · exact h.reply.imp hr.trans hr.trans
    · exact .inr hr
  cancelled := h'.cancelled.trans h.cancelled
  busy := by
    rcases h'.busy with hb | hb
    · exact h.busy.imp hb.trans hb.trans
    · exact .inr hb
  declared := h'.declared.trans h.declared

theorem rows_noted {t : TransferModel} (h : t.declared = w.transfer.declared) :
    Noted w { w with transfer := t } := { Noted.refl w with declared := h }

theorem setState_noted (state : TransferState) (error : QString) (w : Sender) :
    Noted w (w.setState state error) :=
  rows_noted (TransferModel.alike_setState _ _ _).declared

theorem setFileStatus_noted (row : Nat) (status : FileStatus) (error : QString) (w : Sender) :
    Noted w (w.setFileStatus row status error) :=
  rows_noted (TransferModel.declared_setFileStatus _ _ _ _)

theorem closeCurrentFile_noted (w : Sender) : Noted w w.closeCurrentFile :=
  { Noted.refl w with currentFile := .inr rfl }

theorem signal_noted (s : TransferSignal) (w : Sender) : Noted w (w.signal s) := { Noted.refl w with }

theorem leave_noted (status : QString) (files : Nat) (w : Sender) :
    Noted w (w.leave status files) := { Noted.refl w with busy := .inr rfl }

/-- A list of notes, one after the other. -/
theorem foldl_noted {α : Type} {f : Sender → α → Sender} (hf : ∀ w a, Noted w (f w a)) :
    ∀ (l : List α) (w : Sender), Noted w (l.foldl f w)
  | [], w => .refl w
  | a :: l, w => (hf w a).trans (foldl_noted hf l _)

theorem skipRows_noted (p : FileStatus → Bool) (w : Sender) : Noted w (w.skipRows p) := by
  refine foldl_noted (fun w row => ?_) _ w
  split
  · exact setFileStatus_noted _ _ _ w
  · exact .refl w

theorem generateToken_noted (w : Sender) : Noted w w.generateToken.2 := { Noted.refl w with }

theorem fileEntries_noted (i : Nat) (paths : List QString) (w : Sender) :
    Noted w (fileEntries i paths w).2 := by
  induction paths generalizing i w with
  | nil => exact .refl w
  | cons path paths ih =>
    unfold fileEntries
    cases w.files path with
    | none => exact ih (i + 1) w
    | some file => exact (generateToken_noted w).trans (ih (i + 1) _)

theorem writeHistory_noted (w : Sender) : Noted w w.writeHistory := by
  unfold writeHistory
  split
  · exact .refl w
  · have hid : Noted w (if w.service.sessionId = [] then w.generateToken
        else (w.service.sessionId, w)).2 := by
      split
      · exact generateToken_noted w
      · exact .refl w
    rcases hv : (if w.service.sessionId = [] then w.generateToken
      else (w.service.sessionId, w)) with ⟨token, v⟩
    rw [hv] at hid
    simp only
    split
    · exact hid
    · exact hid.trans { Noted.refl v with }

/-- Recording the history, or not, and the end of the transfer. -/
theorem record_noted (status : QString) (files : Nat) (w : Sender) :
    Noted w ((if w.transfer.completedCount > 0 then w.writeHistory else w).leave status files) := by
  split
  · exact (writeHistory_noted w).trans (leave_noted _ _ _)
  · exact leave_noted _ _ w

theorem failTransfer_noted (message : QString) (w : Sender) :
    Noted w (w.failTransfer message) := by
  unfold failTransfer
  extract_lets v
  have hv : Noted w v :=
    ((closeCurrentFile_noted w).trans (skipRows_noted _ _)).trans (setState_noted _ _ _)
  exact hv.trans (record_noted _ _ v)

theorem takeTokens_noted (tokens : QJsonObject) (w : Sender) :
    Noted w (w.takeTokens tokens).2 := by
  unfold takeTokens
  generalize List.range w.transfer.fileCount = rows
  generalize 0 = n
  induction rows generalizing n w with
  | nil => exact .refl w
  | cons row rows ih =>
    rw [List.foldl_cons]
    simp only
    split
    · exact (setFileStatus_noted _ _ _ w).trans (ih _ _)
    · exact (rows_noted (TransferModel.alike_setFileToken _ _ _).declared).trans (ih _ _)

theorem forgetReply_noted (id : ReplyId) (w : Sender) : Noted w (w.forgetReply id) := by
  unfold forgetReply
  split
  · exact { Noted.refl w with reply := .inr rfl }
  · exact .refl w

theorem quit_noted (state : TransferState) (status : QString) (w : Sender) :
    Noted w (w.quit state status) :=
  (setState_noted state [] w).trans { Noted.refl (w.setState state []) with busy := .inr rfl }

theorem settleCurrent_noted (status : FileStatus) (error : QString) (w : Sender) :
    Noted w (w.settleCurrent status error) := by
  unfold settleCurrent
  split
  · exact setFileStatus_noted _ _ _ w
  · exact .refl w

theorem postToPeer_steady {content : Content} {slot : ReplySlot} (w : Sender)
    (h : A (.posted (requestTo w.service.peer content slot))) :
    Steady A w (w.postToPeer content slot) :=
  (post_steady h w).trans (transfer_steady (w := w.post _) w.transfer _ rfl id)

variable [Qt]

theorem requestUpload_steady (pin : QString) (w : Sender) :
    Steady (Asking w.service.peer) w (w.requestUpload pin) :=
  postToPeer_steady w ⟨_, _, rfl⟩

theorem completeTransfer_calm (w : Sender) : Calm A w w.completeTransfer := by
  unfold completeTransfer
  extract_lets done total v peer u
  have hv : Steady A w v := by
    simp only [v]
    split_ifs
    · exact (setState_noted _ _ w).steady
    · exact (setState_noted _ _ w).steady
    · exact (setState_noted _ _ w).steady
  have hu : Calm A v u := by
    simp only [u]
    split
    · exact .same rfl rfl rfl rfl id
    · exact (Steady.refl v).toCalm
  have hx : Calm (fun _ => False) u (u.writeHistory.leave u.transfer.stateName done) :=
    ((writeHistory_noted u).steady.trans (leave_noted _ _ _).steady).toCalm
  exact (hv.calm hu).quiet hx

omit [Qt] in
theorem uploadRow_steady (row : Nat) (content : QByteArray) (w : Sender) :
    Steady (Uploading w.service.peer) w (w.uploadRow row content) := by
  unfold uploadRow
  extract_lets entry s v
  have hv : Steady (Uploading w.service.peer) w v := transfer_steady w.transfer _ rfl id
  refine (hv.trans (setFileStatus_noted row .transferring [] v).steady).trans ?_
  exact postToPeer_steady (v.setFileStatus row .transferring []) ⟨_, _, _, _, _, _, rfl⟩

theorem startRows_calm (rows : List Nat) (w : Sender) :
    Calm (Uploading w.service.peer) w (startRows rows w) := by
  induction rows generalizing w with
  | nil => exact completeTransfer_calm w
  | cons row rows ih =>
    unfold startRows
    split
    · exact ih w
    · extract_lets s v
      have hv : Steady (Uploading w.service.peer) w v := transfer_steady w.transfer _ rfl id
      split
      · exact hv.calm (uploadRow_steady row _ v).toCalm
      · have hf : Steady (Uploading w.service.peer) v
            (v.setFileStatus row .failed (str "Could not open the file")) :=
          (setFileStatus_noted _ _ _ v).steady
        exact (hv.trans hf).calm (ih (v.setFileStatus row .failed _))

theorem startNextFile_calm (w : Sender) :
    Calm (fun o => w.service.cancelled = false ∧ Uploading w.service.peer o) w
      w.startNextFile := by
  unfold startNextFile
  extract_lets v next
  have hv : Steady (fun o => w.service.cancelled = false ∧ Uploading w.service.peer o) w v :=
    (closeCurrentFile_noted w).steady
  split
  · exact hv.toCalm
  · rename_i hc
    exact hv.calm ((startRows_calm _ v).mono fun o ho => ⟨eq_false_of_ne_true hc, ho⟩)

theorem submitPin_steady (pin : QString) (w : Sender) :
    Steady (fun o => w.service.busy = true ∧ pin ≠ [] ∧ Asking w.service.peer o) w
      (w.submitPin pin) := by
  unfold submitPin
  split
  · exact .refl w
  · rename_i h
    obtain ⟨hb, hp⟩ := not_or.1 h
    extract_lets s v
    have hv : Steady (fun o => w.service.busy = true ∧ pin ≠ [] ∧ Asking w.service.peer o) w v :=
      transfer_steady w.transfer _ rfl id
    refine (hv.trans (setState_noted .requesting [] v).steady).trans ?_
    exact (requestUpload_steady pin (v.setState .requesting [])).mono
      fun o ho => ⟨not_not.1 hb, hp, ho⟩

theorem beginSending_emits (peer : DeviceInfo) (entries : List FileEntry) (w : Sender) :
    Emits (Asking peer) w (((w.beginSending peer entries).setState .requesting []).requestUpload
      []) := by
  have h : Steady (Asking peer) (w.beginSending peer entries)
      (((w.beginSending peer entries).setState .requesting []).requestUpload []) :=
    (setState_noted .requesting [] _).steady.trans
      (requestUpload_steady [] ((w.beginSending peer entries).setState .requesting []))
  exact ⟨h.held, h.log, h.replies⟩

/-- A transfer starts for a peer that is not blocked, or nothing is sent. -/
theorem sendFiles_emits (device : DeviceInfo) (paths : List QString) (w : Sender) :
    (w.sendFiles device paths).service.peer = SendService.peerOf device ∧
      Emits (fun o => w.known.isBlocked device.fingerprint = false ∧
        Asking (SendService.peerOf device) o) w (w.sendFiles device paths) ∨
    Steady (fun _ => False) w (w.sendFiles device paths) := by
  unfold sendFiles
  extract_lets peer
  split
  · exact .inr (.refl w)
  · split
    · exact .inr ((transfer_steady _ w.service rfl fun hb => hb).trans (setState_noted _ _ _).steady)
    · rename_i hblocked
      have hentries := fileEntries_noted 0 paths w
      rcases hv : fileEntries 0 paths w with ⟨entries, v⟩
      rw [hv] at hentries
      simp only
      split
      · exact .inr hentries.steady
      · have hu := beginSending_emits peer entries v
        refine .inl ⟨rfl, hentries.steady.emits (hu.mono fun o ho => ?_)⟩
        exact ⟨eq_false_of_ne_true hblocked, ho⟩

theorem onAccepted_calm (body : QByteArray) (w : Sender) :
    Calm (Uploading w.service.peer) w (w.onAccepted body) := by
  unfold onAccepted
  extract_lets unreadable
  split
  · exact (failTransfer_noted _ w).steady.toCalm
  · extract_lets sessionId tokens v
    have hv : Steady (Uploading w.service.peer) w v := transfer_steady w.transfer _ rfl id
    split
    · exact (hv.trans (failTransfer_noted _ v).steady).toCalm
    · have ht := (takeTokens_noted tokens v).steady (A := Uploading w.service.peer)
      rcases hu : v.takeTokens tokens with ⟨accepted, u⟩
      rw [hu] at ht
      have hwu := hv.trans ht
      simp only
      split
      · exact (hwu.trans (quit_noted _ _ u).steady).toCalm
      · have hx : Steady (Uploading w.service.peer) u { u.setState .active [] with
            service := { u.service with currentRow := none } } :=
          (setState_noted .active [] u).steady.trans
            (transfer_steady (w := u.setState .active []) _ _ rfl id)
        refine (hwu.trans hx).calm ((startNextFile_calm _).mono fun o ho => ?_)
        rw [← hwu.peer]
        exact ho.2

omit [Qt] in
theorem forgetReply_cancelled (id : ReplyId) (w : Sender) :
    (w.forgetReply id).service.cancelled = w.service.cancelled := by
  unfold forgetReply
  split <;> rfl

theorem onPrepareFinished_calm (id : ReplyId) (error : Bool) (status : Nat) (body : QByteArray)
    (w : Sender) : Calm (fun o => (w.service.cancelled = false ∧ status = 200) ∧
      Uploading w.service.peer o) w (w.onPrepareFinished id error status body) := by
  unfold onPrepareFinished
  extract_lets v aliasName
  have hv : Steady (fun o => (w.service.cancelled = false ∧ status = 200) ∧
      Uploading w.service.peer o) w v := (forgetReply_noted id w).steady
  have fails := fun message => (hv.trans (failTransfer_noted message v).steady).toCalm
  split
  · exact hv.toCalm
  · rename_i hc
    split
    · exact fails _
    · split
      · refine hv.calm ((onAccepted_calm body v).mono fun o ho => ⟨⟨?_, rfl⟩, ?_⟩)
        · rw [← forgetReply_cancelled id w]
          exact eq_false_of_ne_true hc
        · rw [← hv.peer]
          exact ho
      · exact (hv.trans (quit_noted _ _ v).steady).toCalm
      · exact (hv.trans ((setState_noted _ _ v).trans (signal_noted _ _)).steady).toCalm
      · exact (hv.trans ((signal_noted _ v).trans (quit_noted _ _ _)).steady).toCalm
      · exact fails _
      · exact fails _
      · exact fails _

omit [Qt] in
theorem settleCurrent_service (status : FileStatus) (error : QString) (w : Sender) :
    (w.settleCurrent status error).service = w.service := by
  unfold settleCurrent
  split <;> rfl

theorem onUploadFinished_calm (id : ReplyId) (error : Bool) (status : Nat)
    (errorString : QString) (w : Sender) :
    Calm (fun o => (w.service.cancelled = false ∧ status ≠ 409) ∧ Uploading w.service.peer o) w
      (w.onUploadFinished id error status errorString) := by
  unfold onUploadFinished
  extract_lets v
  have hv : Steady (fun o => (w.service.cancelled = false ∧ status ≠ 409) ∧
      Uploading w.service.peer o) w v := (forgetReply_noted id w).steady
  have next : ∀ fileStatus message, status ≠ 409 →
      Calm (fun o => (w.service.cancelled = false ∧ status ≠ 409) ∧ Uploading w.service.peer o) w
        (v.settleCurrent fileStatus message).startNextFile := by
    intro fileStatus message hne
    have hs : Steady (fun o => (w.service.cancelled = false ∧ status ≠ 409) ∧
        Uploading w.service.peer o) w (v.settleCurrent fileStatus message) :=
      hv.trans (settleCurrent_noted fileStatus message v).steady
    refine hs.calm ((startNextFile_calm _).mono fun o ho => ⟨⟨?_, hne⟩, ?_⟩)
    · rw [← forgetReply_cancelled id w, ← settleCurrent_service fileStatus message]
      exact ho.1
    · rw [← hs.peer]
      exact ho.2
  split
  · exact hv.toCalm
  · split
    · rename_i hok
      exact next _ _ (by omega)
    · split
      · exact (hv.trans ((settleCurrent_noted _ _ v).steady.trans (failTransfer_noted _ _).steady)).toCalm
      · rename_i hne
        exact next _ _ hne

omit [Qt] in
theorem abortReply_steady (w : Sender) : Steady A w w.abortReply := by
  unfold abortReply
  extract_lets v
  have hv : Steady A w v := by
    simp only [v]
    split
    · exact setReply_steady w fun _ h => by cases h
    · exact .refl w
  exact hv.trans (transfer_steady v.transfer _ rfl fun hb => hb)

omit [Qt] in
theorem notifyPeerCancelled_steady (w : Sender) :
    Steady (Cancelling w.service.peer) w w.notifyPeerCancelled := by
  unfold notifyPeerCancelled
  split
  · exact .refl w
  · exact post_steady ⟨_, rfl⟩ w

omit [Qt] in
theorem cancel_steady (w : Sender) : Steady (Cancelling w.service.peer) w w.cancel := by
  unfold cancel
  split
  · exact .refl w
  · extract_lets v
    have hc : Steady (Cancelling w.service.peer) w w.abortReply.closeCurrentFile :=
      (abortReply_steady w).trans (closeCurrentFile_noted _).steady
    have hn := notifyPeerCancelled_steady w.abortReply.closeCurrentFile
    rw [hc.peer] at hn
    have hv : Steady (Cancelling w.service.peer) w v :=
      ((hc.trans hn).trans (skipRows_noted _ _).steady).trans (setState_noted _ _ _).steady
    exact hv.trans (record_noted _ _ v).steady

end

/-! ## Every event -/

section
variable [Qt]

/-- The transfer goes on, to its next file, because of this event. -/
def GoesOn (w : Sender) : SenderEvent → Prop
  | .answered id _ status _ _ => ∃ r, w.replies id = some r ∧ w.service.cancelled = false ∧
    (r.request.slot = .prepared ∧ status = 200 ∨
      ∃ row, r.request.slot = .uploaded row ∧ status ≠ 409)
  | .fails id _ => ∃ r row, w.replies id = some r ∧ w.service.cancelled = false ∧
    r.request.slot = .uploaded row
  | .connects id certificate reported => ∃ r row, w.replies id = some r ∧
    r.request.connects certificate reported = false ∧ w.service.cancelled = false ∧
      r.request.slot = .uploaded row
  | _ => False

/-- What each event can send. -/
inductive Sends (w : Sender) : SenderEvent → Outbound → Prop
  | probe {e : SenderEvent} {o : Outbound} : Probing o → Sends w e o
  | answer {payload : QJsonObject} {address : QString} {o : Outbound} :
    w.Announces payload address → Answering (announcer payload address) o →
      Sends w (.datagram payload address) o
  | ask {device : DeviceInfo} {paths : List QString} {o : Outbound} :
    w.known.isBlocked device.fingerprint = false → Asking (SendService.peerOf device) o →
      device ∈ w.held → Sends w (.sendFiles device paths) o
  | askAgain {pin : QString} {o : Outbound} : w.service.busy = true → pin ≠ [] →
    Asking w.service.peer o → Sends w (.submitPin pin) o
  | upload {e : SenderEvent} {o : Outbound} : w.GoesOn e → Uploading w.service.peer o → Sends w e o
  | cancel {o : Outbound} : Cancelling w.service.peer o → Sends w .cancel o
  | sent {id : ReplyId} {certificate : QByteArray} {reported : Bool} {r : QNetworkReply} :
    w.replies id = some r → r.sent = false → r.request.connects certificate reported = true →
      Sends w (.connects id certificate reported)
        (.sent r.request (if r.request.isSecure then some certificate else none))

/-- The end of a reply that is none of the transfer's business. -/
theorem finish_aside {r : QNetworkReply} (h : r.request.slot.isTransfer = false) (id : ReplyId)
    (error : Bool) (status : Nat) (errorString : QString) (body : QByteArray) (w : Sender) :
    Aside Probing (w.setReply id none) (w.finish id r error status errorString body) := by
  unfold finish
  extract_lets v
  cases hs : r.request.slot with
  | registered => exact onRegisterFinished_aside _ _ _ v
  | refreshed => exact acceptRegisterReply_aside _ _ _ v
  | manual => exact onManualReplyFinished_aside _ _ _ v
  | scanned => exact onScanReplyFinished_aside _ _ _ v
  | ignored => exact .refl v
  | prepared =>
    rw [hs] at h
    cases h
  | uploaded row =>
    rw [hs] at h
    cases h

/-- The end of a reply, and what the slot that hears of it sends. -/
theorem finish_calm (id : ReplyId) (r : QNetworkReply) (error : Bool) (status : Nat)
    (errorString : QString) (body : QByteArray) (w : Sender) :
    Calm (fun o => Probing o ∨ (w.service.cancelled = false ∧
        (r.request.slot = .prepared ∧ status = 200 ∨
          ∃ row, r.request.slot = .uploaded row ∧ status ≠ 409)) ∧ Uploading w.service.peer o) w
      (w.finish id r error status errorString body) := by
  have hd : ∀ {A}, Steady A w (w.setReply id none) := setReply_steady w fun _ h => by cases h
  rcases hslot : r.request.slot.isTransfer with - | -
  · exact (hd.trans ((finish_aside hslot id error status errorString body w).toSteady.mono
      fun o ho => .inl ho)).toCalm
  · unfold finish
    extract_lets v
    cases hs : r.request.slot with
    | prepared =>
      exact hd.calm ((onPrepareFinished_calm id error status body v).mono
        fun o ho => .inr ⟨⟨ho.1.1, .inl ⟨rfl, ho.1.2⟩⟩, ho.2⟩)
    | uploaded row =>
      exact hd.calm ((onUploadFinished_calm id error status errorString v).mono
        fun o ho => .inr ⟨⟨ho.1.1, .inr ⟨row, rfl, ho.1.2⟩⟩, ho.2⟩)
    | _ =>
      rw [hs] at hslot
      cases hslot

/-- The end of a handshake: the request leaves, or the slot hears of an error. -/
theorem connect_calm {id : ReplyId} {r : QNetworkReply} {certificate : QByteArray}
    {reported : Bool} {w : Sender} (hr : w.replies id = some r) :
    Calm (w.Sends (.connects id certificate reported)) w
      (w.connect id r certificate reported) := by
  unfold connect
  split
  · exact (Steady.refl w).toCalm
  · rename_i hsent
    split
    · rename_i hc
      extract_lets seen
      have hmark : Steady (w.Sends (.connects id certificate reported)) w
          (w.setReply id (some { r with
            sent := true
            certificate := seen.getD [] })) := by
        refine setReply_steady w fun r' hr' => .inl ⟨r, hr, ?_⟩
        cases hr'
        rfl
      exact (hmark.trans (emit_steady (.sent hr (eq_false_of_ne_true hsent) hc) _)).toCalm
    · rename_i hc
      refine (finish_calm id r true 0 _ [] w).mono fun o ho => ?_
      rcases ho with ho | ⟨⟨hcancelled, hslot⟩, ho⟩
      · exact .probe ho
      · rcases hslot with ⟨_, h200⟩ | ⟨row, hrow, _⟩
        · cases h200
        · exact .upload ⟨r, row, hr, eq_false_of_ne_true hc, hcancelled, hrow⟩ ho

/-- What finds devices does not touch the transfer. -/
theorem step_aside {e : SenderEvent} (he : e.isDiscovery = true) (w : Sender) :
    Aside (w.Sends e) w (w.step e) := by
  have probing : ∀ v, Aside Probing w v → Aside (w.Sends e) w v :=
    fun v h => h.mono fun o ho => .probe ho
  cases e with
  | datagram payload address =>
    simp only [step]
    split
    · exact (handlePayload_aside payload address w).mono fun o ho => .answer ho.1 ho.2
    · exact .refl w
  | register payload address => exact registerPeer_aside payload address w
  | announceTimer =>
    simp only [step]
    split
    · exact probing _ (announce_aside w)
    · exact .refl w
  | burst => exact probing _ (burst_aside w)
  | start binds => exact probing _ (startDiscovery_aside binds w)
  | stop => exact stopDiscovery_aside w
  | refresh binds => exact probing _ (refresh_aside binds w)
  | addDeviceAt host port => exact probing _ (addDeviceAt_aside host port w)
  | scanSubnet mine => exact probing _ (scanSubnet_aside mine w)
  | cancelScan => exact cancelScan_aside w
  | _ => cases he

/-- What a step sends, and whose transfer it is after it: a new one, or the one it was. -/
theorem step_emits (w : Sender) (e : SenderEvent) : Emits (w.Sends e) w (w.step e) ∧
    ((∃ device paths, e = .sendFiles device paths ∧ device ∈ w.held ∧
        (w.step e).service.peer = SendService.peerOf device) ∨
      Calm (fun o => (∀ device paths, e ≠ .sendFiles device paths) ∧ w.Sends e o) w
        (w.step e)) := by
  have calm : (∀ device paths, e ≠ .sendFiles device paths) → ∀ v, Calm (w.Sends e) w v →
      Emits (w.Sends e) w v ∧
        ((∃ device paths, e = .sendFiles device paths ∧ device ∈ w.held ∧
            v.service.peer = SendService.peerOf device) ∨
          Calm (fun o => (∀ device paths, e ≠ .sendFiles device paths) ∧ w.Sends e o) w v) :=
    fun hne v h => ⟨h.toEmits, .inr (h.mono fun o ho => ⟨hne, ho⟩)⟩
  have same : Calm (w.Sends e) w w := (Steady.refl w).toCalm
  by_cases he : e.isDiscovery = true
  · refine calm ?_ _ (step_aside he w).toCalm
    rintro _ _ rfl
    cases he
  cases e with
  | connects id certificate reported =>
    refine calm (by simp) _ ?_
    simp only [step]
    cases hr : w.replies id with
    | none => exact same
    | some r => exact connect_calm hr
  | uploadProgress id sent =>
    refine calm (by simp) _ ?_
    simp only [step]
    split
    · exact (transfer_steady _ w.service rfl fun hb => hb).toCalm
    · exact same
  | answered id error status errorString body =>
    refine calm (by simp) _ ?_
    simp only [step]
    cases hr : w.replies id with
    | none => exact same
    | some r =>
      simp only
      split
      · refine (finish_calm id r error status errorString body w).mono fun o ho => ?_
        rcases ho with ho | ⟨⟨hcancelled, hslot⟩, ho⟩
        · exact .probe ho
        · exact .upload ⟨r, hr, hcancelled, hslot⟩ ho
      · exact same
  | fails id errorString =>
    refine calm (by simp) _ ?_
    simp only [step]
    cases hr : w.replies id with
    | none => exact same
    | some r =>
      refine (finish_calm id r true 0 errorString [] w).mono fun o ho => ?_
      rcases ho with ho | ⟨⟨hcancelled, hslot⟩, ho⟩
      · exact .probe ho
      · rcases hslot with ⟨_, h200⟩ | ⟨row, hrow, _⟩
        · cases h200
        · exact .upload ⟨r, row, hr, hcancelled, hrow⟩ ho
  | hold row =>
    simp only [step]
    split
    · refine calm (by simp) _ ⟨⟨fun row hr => List.mem_append_left _ hr, ⟨[], ?_, ?_⟩,
        fun id r hr => .inl ⟨r, hr, rfl⟩⟩, rfl, fun hb => hb⟩
      · rw [List.append_nil]
      · intro e he
        cases he
    · exact calm (by simp) _ same
  | sendFiles device paths =>
    have quiet : ∀ v, Steady (fun _ => False) w v →
        Emits (w.Sends (.sendFiles device paths)) w v ∧
          ((∃ device' paths', SenderEvent.sendFiles device paths = .sendFiles device' paths' ∧
              device' ∈ w.held ∧ v.service.peer = SendService.peerOf device') ∨
            Calm (fun o => (∀ device' paths', SenderEvent.sendFiles device paths ≠
              .sendFiles device' paths') ∧ w.Sends (.sendFiles device paths) o) w v) :=
      fun v h => ⟨h.toEmits.mono fun o ho => ho.elim, .inr (h.toCalm.mono fun o ho => ho.elim)⟩
    simp only [step]
    split
    · rename_i hheld
      rcases sendFiles_emits device paths w with ⟨hp, hemits⟩ | hquiet
      · exact ⟨hemits.mono fun o ho => .ask ho.1 ho.2 hheld, .inl ⟨device, paths, rfl, hheld, hp⟩⟩
      · exact quiet _ hquiet
    · exact quiet _ (.refl w)
  | submitPin pin =>
    exact calm (by simp) _ ((submitPin_steady pin w).mono fun o ho => .askAgain ho.1 ho.2.1 ho.2.2).toCalm
  | cancel => exact calm (by simp) _ ((cancel_steady w).mono fun o ho => .cancel ho).toCalm
  | edit e => exact calm (by simp) _ (.same rfl rfl rfl rfl fun hb => hb)
  | settings s => exact calm (by simp) _ (.same rfl rfl rfl rfl fun hb => hb)
  | files files => exact calm (by simp) _ (.same rfl rfl rfl rfl fun hb => hb)
  | tick ms => exact calm (by simp) _ (.same rfl rfl rfl rfl fun hb => hb)
  | _ => exact absurd rfl he

end

end Sender

end LocalSend
