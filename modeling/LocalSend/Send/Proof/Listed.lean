import LocalSend.Models.Proof.Devices
import LocalSend.Send.Proof.Frames

/-!
# What a step does to the list of devices

Every step calls the list of devices in the way of `DeviceModel.Call` (`step_devices`): a payload or
a reply to `/register` puts forward the device it describes, an announcement of our own prunes, and
`stop` clears. So what is true of the list over any calls is true of it in any run
(`devices_reached`).
-/

set_option autoImplicit false

namespace LocalSend

/-- The search may start, stop or answer, or time passes. -/
def SenderEvent.isTurn : SenderEvent → Bool
  | .datagram .. | .burst | .start _ | .stop | .refresh _ | .tick _ => true
  | _ => false

namespace Sender

variable [Qt]

/-- The device a payload puts forward: none if it has no fingerprint, or our own. -/
def stranger (payload : QJsonObject) (address : QString) (w : Sender) : Option DeviceInfo :=
  let peer := DeviceInfo.fromPayload payload
  if ¬ peer.isValid ∨ peer.fingerprint = w.settings.fingerprint then none
  else some (announcer payload address)

/-- The device the body of a reply describes, in the same way. -/
def described (r : QNetworkReply) (error : Bool) (body : QByteArray) (w : Sender) :
    Option DeviceInfo :=
  if error then none
  else match Qt.fromJson body with
    | none => none
    | some object =>
      let peer := peerOf r object
      if ¬ peer.isValid ∨ peer.fingerprint = w.settings.fingerprint then none else some peer

/-- The key that served the reply speaks for the device, or no key did. -/
def vouched (r : QNetworkReply) (peer : DeviceInfo) : Bool :=
  Certificate.fingerprintOf r.certificate = [] ||
    Crypto.equalsFold (Certificate.fingerprintOf r.certificate) peer.fingerprint

/-- The device a reply puts forward, by the slot that hears of its end. -/
def introduced (r : QNetworkReply) (error : Bool) (body : QByteArray) (w : Sender) :
    Option DeviceInfo :=
  match r.request.slot with
  | .registered => w.described r error body
  | .refreshed => (w.described r error body).filter (vouched r)
  | .scanned => (w.described r error body).filter (vouched r)
  | .manual => if w.discovery.manualFound then none
    else (w.described r error body).filter (vouched r)
  | _ => none

/-- A device is put forward to the list. -/
def offer (w : Sender) : Option DeviceInfo → List DeviceModel.Call
  | some device => [.upsert w.known w.now device]
  | none => []

/-- The round of an announcement, as far as the list is concerned. -/
def pruning (w : Sender) : List DeviceModel.Call := [.prune w.now DeviceMaxAgeSeconds]

/-- How an event calls the list of devices. -/
def calls (w : Sender) : SenderEvent → List DeviceModel.Call
  | .datagram payload address =>
    if w.discovery.socket then w.offer (w.stranger payload address) else []
  | .register payload address => w.offer (w.stranger payload address)
  | .announceTimer => if w.discovery.running then w.pruning else []
  | .burst => if w.discovery.bursts = 0 then [] else w.pruning
  | .start binds => if ¬ w.discovery.running ∧ binds then w.pruning else []
  | .stop => if w.discovery.running then [.clear] else []
  | .refresh binds => if w.discovery.running ∨ binds then w.pruning else []
  | .answered id error _ _ body =>
    match w.replies id with
    | some r => if r.sent then w.offer (w.introduced r error body) else []
    | none => []
  | _ => []

/-- After these calls. -/
def listing (w : Sender) (calls : List DeviceModel.Call) : DeviceModel :=
  calls.foldl DeviceModel.next w.devices

/-! ## Replies -/

theorem onRegisterFinished_eq (r : QNetworkReply) (error : Bool) (body : QByteArray)
    (w : Sender) : w.onRegisterFinished r error body =
      match w.described r error body with
      | some peer => w.upsert peer
      | none => w := by
  unfold onRegisterFinished described
  cases error with
  | true => rfl
  | false =>
    cases Qt.fromJson body with
    | none => rfl
    | some object =>
      simp only [Bool.false_eq_true, if_false]
      split <;> rfl

theorem acceptRegisterReply_eq (r : QNetworkReply) (error : Bool) (body : QByteArray)
    (w : Sender) : w.acceptRegisterReply r error body =
      match (w.described r error body).filter (vouched r) with
      | some peer => (true, w.upsert peer)
      | none => (false, w) := by
  unfold acceptRegisterReply described
  cases error with
  | true => rfl
  | false =>
    cases Qt.fromJson body with
    | none => rfl
    | some object =>
      simp only [Bool.false_eq_true, if_false]
      split
      · rfl
      · by_cases hgenuine : vouched r (peerOf r object) = true
        · rw [Option.filter_some, if_pos hgenuine, if_neg]
          simpa [vouched, or_iff_not_imp_left] using hgenuine
        · rw [Option.filter_some, if_neg hgenuine, if_pos]
          simpa [vouched] using hgenuine

/-! ## Functions that do not call the list -/

omit [Qt] in
/-- Whether `Discovery` runs, and whom it has answered, stays as it is. -/
structure Runs (w v : Sender) : Prop where
  now : v.now = w.now
  running : v.discovery.running = w.discovery.running
  socket : v.discovery.socket = w.discovery.socket
  bursts : v.discovery.bursts = w.discovery.bursts
  lastResponse : v.discovery.lastResponse = w.discovery.lastResponse

omit [Qt] in
/-- The list is not called, either. -/
structure Quiet (w v : Sender) : Prop extends Runs w v where
  devices : v.devices = w.devices

section
variable {u v w : Sender}

omit [Qt] in
theorem Runs.refl (w : Sender) : Runs w w := ⟨rfl, rfl, rfl, rfl, rfl⟩

omit [Qt] in
theorem Runs.trans (h : Runs u v) (h' : Runs v w) : Runs u w where
  now := h'.now.trans h.now
  running := h'.running.trans h.running
  socket := h'.socket.trans h.socket
  bursts := h'.bursts.trans h.bursts
  lastResponse := h'.lastResponse.trans h.lastResponse

omit [Qt] in
theorem Apart.runs (h : Apart w v) : Runs w v :=
  ⟨h.now, by rw [h.discovery], by rw [h.discovery], by rw [h.discovery], by rw [h.discovery]⟩

omit [Qt] in
theorem Quiet.refl (w : Sender) : Quiet w w := ⟨.refl w, rfl⟩

omit [Qt] in
theorem Quiet.trans (h : Quiet u v) (h' : Quiet v w) : Quiet u w :=
  ⟨h.toRuns.trans h'.toRuns, h'.devices.trans h.devices⟩

omit [Qt] in
/-- A change of what a sweep or a lookup remembers, and requests that are posted. -/
theorem Quiet.same (hd : v.devices = w.devices) (hn : v.now = w.now)
    (hv : v.discovery = { w.discovery with
      manualDevices := v.discovery.manualDevices
      scanQueue := v.discovery.scanQueue
      scanTotal := v.discovery.scanTotal
      scanDone := v.discovery.scanDone
      scanInFlight := v.discovery.scanInFlight
      scanning := v.discovery.scanning
      scanFinishes := v.discovery.scanFinishes
      manualPending := v.discovery.manualPending
      manualFound := v.discovery.manualFound
      manualEndpoint := v.discovery.manualEndpoint }) : Quiet w v :=
  ⟨⟨hn, by rw [hv], by rw [hv], by rw [hv], by rw [hv]⟩, hd⟩

end

theorem refreshManualDevices_quiet (w : Sender) : Quiet w w.refreshManualDevices := by
  unfold refreshManualDevices
  generalize w.discovery.manualDevices = endpoints
  induction endpoints generalizing w with
  | nil => exact .refl w
  | cons endpoint endpoints ih =>
    obtain ⟨host, port⟩ := endpoint
    rw [List.foldl_cons]
    refine Quiet.trans ?_ (ih _)
    simp only
    split <;> exact .same rfl rfl rfl

theorem respondTo_devices (peer : DeviceInfo) (w : Sender) :
    (w.respondTo peer).devices = w.devices := by
  unfold respondTo
  split
  · rfl
  · extract_lets table d v u
    have hu : u.devices = w.devices := by
      simp only [u]
      split <;> rfl
    unfold postRegister
    split <;> exact hu

theorem addDeviceAt_quiet (host : QString) (port : Int) (w : Sender) :
    Quiet w (w.addDeviceAt host port) := by
  unfold addDeviceAt
  split <;> exact .same rfl rfl rfl

theorem pumpQueue_quiet (queue : List (QString × QString)) (w : Sender) :
    Quiet w (pumpQueue queue w) := by
  induction queue generalizing w with
  | nil => exact .same rfl rfl rfl
  | cons target rest ih =>
    obtain ⟨scheme, host⟩ := target
    unfold pumpQueue
    split
    · refine Quiet.trans ?_ (ih _)
      exact .same rfl rfl rfl
    · exact .same rfl rfl rfl

theorem pumpScanQueue_quiet (w : Sender) : Quiet w w.pumpScanQueue := by
  unfold pumpScanQueue
  extract_lets v
  have hv : Quiet w v := by
    simp only [v]
    split
    · exact pumpQueue_quiet _ w
    · exact .refl w
  split
  · exact hv.trans (.same rfl rfl rfl)
  · exact hv

theorem scanSubnet_quiet (mine : List QString) (w : Sender) : Quiet w (w.scanSubnet mine) := by
  unfold scanSubnet
  split
  · exact .refl w
  · extract_lets queue d v
    split
    · exact .same rfl rfl rfl
    · refine Quiet.trans ?_ (pumpScanQueue_quiet _)
      exact .same rfl rfl rfl

omit [Qt] in
theorem cancelScan_quiet (w : Sender) : Quiet w w.cancelScan := by
  unfold cancelScan
  split
  · exact .refl w
  · extract_lets d v
    split <;> exact .same rfl rfl rfl

theorem announcing_quiet (w : Sender) : Quiet w w.sendAnnouncement.refreshManualDevices := by
  have hsent : Quiet w w.sendAnnouncement := by
    unfold sendAnnouncement
    split <;> exact .same rfl rfl rfl
  exact hsent.trans (refreshManualDevices_quiet w.sendAnnouncement)

/-! ## Functions that do -/

theorem announce_devices (w : Sender) : w.announce.devices = w.listing w.pruning := by
  have hq := announcing_quiet w
  change w.sendAnnouncement.refreshManualDevices.devices.prune
    w.sendAnnouncement.refreshManualDevices.now DeviceMaxAgeSeconds = _
  rw [hq.devices, hq.now]
  rfl

theorem startDiscovery_devices (binds : Bool) (w : Sender) : (w.startDiscovery binds).devices =
    w.listing (if ¬ w.discovery.running ∧ binds then w.pruning else []) := by
  unfold startDiscovery
  by_cases hrun : w.discovery.running = true
  · simp [hrun, listing]
  · cases binds with
    | false => simp [hrun, listing]
    | true =>
      simp only [hrun, if_false, if_true, Bool.false_eq_true, not_false_eq_true, and_self]
      exact announce_devices _

theorem handlePayload_devices (payload : QJsonObject) (address : QString) (w : Sender) :
    (w.handlePayload payload address).devices =
      w.listing (w.offer (w.stranger payload address)) := by
  unfold handlePayload stranger
  extract_lets peer peer' v
  split
  · rfl
  · split
    · exact respondTo_devices peer' v
    · rfl

theorem registerPeer_devices (payload : QJsonObject) (address : QString) (w : Sender) :
    (w.registerPeer payload address).devices =
      w.listing (w.offer (w.stranger payload address)) := by
  unfold registerPeer stranger
  simp only
  split <;> rfl

theorem finish_devices (id : ReplyId) (r : QNetworkReply) (error : Bool) (status : Nat)
    (errorString : QString) (body : QByteArray) (w : Sender) :
    (w.finish id r error status errorString body).devices =
      w.listing (w.offer (w.introduced r error body)) := by
  have accepted : ∀ v : Sender, v.devices = w.devices → v.known = w.known → v.now = w.now →
      v.settings = w.settings → (v.acceptRegisterReply r error body).2.devices =
        w.listing (w.offer ((w.described r error body).filter (vouched r))) := by
    intro v hd hk hn hs
    have hsame : v.described r error body = w.described r error body := by
      unfold described
      rw [hs]
    rw [acceptRegisterReply_eq, hsame]
    cases (w.described r error body).filter (vouched r) with
    | none => exact hd
    | some peer =>
      change (v.devices.upsert v.known v.now peer).2 = (w.devices.upsert w.known w.now peer).2
      rw [hd, hk, hn]
  unfold finish introduced
  extract_lets v
  cases hslot : r.request.slot with
  | registered =>
    have hsame : v.described r error body = w.described r error body := rfl
    rw [onRegisterFinished_eq, hsame]
    cases w.described r error body <;> rfl
  | refreshed => exact accepted v rfl rfl rfl rfl
  | manual =>
    simp only [onManualReplyFinished]
    by_cases hfound : w.discovery.manualFound = true
    · simp only [v, setReply, hfound, if_true]
      rfl
    · simp only [v, setReply, hfound, if_false, Bool.false_eq_true]
      rw [apply_ite Sender.devices, ite_self]
      exact accepted _ rfl rfl rfl rfl
  | scanned =>
    exact (pumpScanQueue_quiet _).devices.trans (accepted _ rfl rfl rfl rfl)
  | prepared => exact (apart_frame.onPrepareFinished id error status body v).devices
  | uploaded row => exact (apart_frame.onUploadFinished id error status errorString v).devices
  | ignored => rfl

/-! ## Whether it runs -/

theorem announce_runs (w : Sender) : Runs w w.announce := by
  obtain ⟨hruns, -⟩ := announcing_quiet w
  exact ⟨hruns.now, hruns.running, hruns.socket, hruns.bursts, hruns.lastResponse⟩

theorem acceptRegisterReply_runs (r : QNetworkReply) (error : Bool) (body : QByteArray)
    (w : Sender) : Runs w (w.acceptRegisterReply r error body).2 := by
  rw [acceptRegisterReply_eq]
  cases (w.described r error body).filter (vouched r) <;> exact ⟨rfl, rfl, rfl, rfl, rfl⟩

theorem finish_runs (id : ReplyId) (r : QNetworkReply) (error : Bool) (status : Nat)
    (errorString : QString) (body : QByteArray) (w : Sender) :
    Runs w (w.finish id r error status errorString body) := by
  unfold finish
  extract_lets v
  have hv : Runs w v := ⟨rfl, rfl, rfl, rfl, rfl⟩
  cases r.request.slot with
  | registered =>
    rw [onRegisterFinished_eq]
    cases v.described r error body <;> exact ⟨rfl, rfl, rfl, rfl, rfl⟩
  | refreshed => exact hv.trans (acceptRegisterReply_runs r error body v)
  | manual =>
    simp only [onManualReplyFinished]
    split
    · exact ⟨rfl, rfl, rfl, rfl, rfl⟩
    · have ha := acceptRegisterReply_runs r error body { v with
        discovery := { v.discovery with manualPending := v.discovery.manualPending - 1 } }
      split
      · exact ⟨ha.now, ha.running, ha.socket, ha.bursts, ha.lastResponse⟩
      · exact ⟨ha.now, ha.running, ha.socket, ha.bursts, ha.lastResponse⟩
  | scanned =>
    have ha := acceptRegisterReply_runs r error body { v with
      discovery := { v.discovery with
        scanInFlight := v.discovery.scanInFlight - 1
        scanDone := v.discovery.scanDone + 1 } }
    refine Runs.trans ⟨ha.now, ha.running, ha.socket, ha.bursts, ha.lastResponse⟩ ?_
    exact (pumpScanQueue_quiet _).toRuns
  | prepared => exact hv.trans (apart_frame.onPrepareFinished id error status body v).runs
  | uploaded row => exact hv.trans (apart_frame.onUploadFinished id error status errorString v).runs
  | ignored => exact hv

/-- What is scheduled is one announcement less. -/
theorem burst_runs (w : Sender) : Runs { w with
    discovery := { w.discovery with bursts := w.discovery.bursts - 1 } } w.burst := by
  unfold burst
  split
  · rename_i hnone
    exact ⟨rfl, rfl, rfl, by simp [hnone], rfl⟩
  · exact announce_runs _

/-- A payload changes no more than who was answered. -/
theorem handlePayload_runs (payload : QJsonObject) (address : QString) (w : Sender) : Runs { w with
    discovery := { w.discovery with
      lastResponse := (w.handlePayload payload address).discovery.lastResponse } }
    (w.handlePayload payload address) := by
  unfold handlePayload
  extract_lets peer peer' v
  split
  · exact ⟨rfl, rfl, rfl, rfl, rfl⟩
  · split
    · unfold respondTo postRegister
      split
      · exact ⟨rfl, rfl, rfl, rfl, rfl⟩
      · simp only
        split <;> split <;> exact ⟨rfl, rfl, rfl, rfl, rfl⟩
    · exact ⟨rfl, rfl, rfl, rfl, rfl⟩

theorem startDiscovery_same (binds : Bool) (w : Sender) : (w.startDiscovery binds).now = w.now ∧
    (w.startDiscovery binds).discovery.lastResponse = w.discovery.lastResponse := by
  unfold startDiscovery
  split
  · exact ⟨rfl, rfl⟩
  · cases binds with
    | false => exact ⟨rfl, rfl⟩
    | true =>
      have hruns := announce_runs { w with
        discovery := { w.discovery with running := true, socket := true } }
      exact ⟨hruns.now, hruns.lastResponse⟩

/-! ## Every event -/

theorem introduced_error (r : QNetworkReply) (body : QByteArray) (w : Sender) :
    w.introduced r true body = none := by
  unfold introduced
  cases r.request.slot <;> simp [described]

/-- What an event calls the list for is all that it does to it. -/
theorem step_devices (w : Sender) (e : SenderEvent) :
    (w.step e).devices = w.listing (w.calls e) := by
  have failed : ∀ id r errorString, (w.finish id r true 0 errorString []).devices = w.devices := by
    intro id r errorString
    rw [finish_devices, introduced_error]
    rfl
  cases e with
  | datagram payload address =>
    simp only [step, calls]
    split
    · exact handlePayload_devices payload address w
    · rfl
  | register payload address => exact registerPeer_devices payload address w
  | announceTimer =>
    simp only [step, calls]
    split
    · exact announce_devices w
    · rfl
  | burst =>
    simp only [step, calls, burst]
    split
    · rfl
    · exact announce_devices _
  | start binds => exact startDiscovery_devices binds w
  | stop =>
    simp only [step, calls, stopDiscovery]
    by_cases hrun : w.discovery.running = true
    · simp [hrun, listing, DeviceModel.next]
    · simp [hrun, listing]
  | refresh binds =>
    simp only [step, calls, refresh]
    by_cases hrun : w.discovery.running = true
    · simp only [hrun, if_true, true_or]
      exact announce_devices w
    · simp only [hrun, if_false, false_or, Bool.false_eq_true]
      rw [startDiscovery_devices]
      simp [hrun]
  | addDeviceAt host port => exact (addDeviceAt_quiet host port w).devices
  | scanSubnet mine => exact (scanSubnet_quiet mine w).devices
  | cancelScan => exact (cancelScan_quiet w).devices
  | connects id certificate reported =>
    simp only [step, calls]
    cases w.replies id with
    | none => rfl
    | some r =>
      simp only [connect]
      split
      · rfl
      · split
        · rfl
        · exact failed id r _
  | uploadProgress id sent =>
    simp only [step, calls]
    split <;> rfl
  | answered id error status errorString body =>
    simp only [step, calls]
    cases w.replies id with
    | none => rfl
    | some r =>
      simp only
      split
      · exact finish_devices id r error status errorString body w
      · rfl
  | fails id errorString =>
    simp only [step, calls]
    cases w.replies id with
    | none => rfl
    | some r => exact failed id r errorString
  | hold row =>
    simp only [step, calls]
    split <;> rfl
  | sendFiles device paths =>
    simp only [step, calls]
    split
    · exact (apart_frame.sendFiles device paths w).devices
    · rfl
  | submitPin pin => exact (apart_frame.submitPin pin w).devices
  | cancel => exact (apart_frame.cancel w).devices
  | edit e => rfl
  | settings s => rfl
  | files files => rfl
  | tick ms => rfl

/-- Anything else leaves the search as it is. -/
theorem step_runs {e : SenderEvent} (he : e.isTurn = false) (w : Sender) : Runs w (w.step e) := by
  cases e with
  | register payload address =>
    simp only [step, registerPeer]
    split <;> exact ⟨rfl, rfl, rfl, rfl, rfl⟩
  | announceTimer =>
    simp only [step]
    split
    · exact announce_runs w
    · exact .refl w
  | addDeviceAt host port => exact (addDeviceAt_quiet host port w).toRuns
  | scanSubnet mine => exact (scanSubnet_quiet mine w).toRuns
  | cancelScan => exact (cancelScan_quiet w).toRuns
  | connects id certificate reported =>
    simp only [step]
    cases w.replies id with
    | none => exact .refl w
    | some r =>
      simp only [connect]
      split
      · exact .refl w
      · split
        · exact ⟨rfl, rfl, rfl, rfl, rfl⟩
        · exact finish_runs ..
  | uploadProgress id sent =>
    simp only [step]
    split <;> exact ⟨rfl, rfl, rfl, rfl, rfl⟩
  | answered id error status errorString body =>
    simp only [step]
    cases w.replies id with
    | none => exact .refl w
    | some r =>
      simp only
      split
      · exact finish_runs ..
      · exact .refl w
  | fails id errorString =>
    simp only [step]
    cases w.replies id with
    | none => exact .refl w
    | some r => exact finish_runs ..
  | hold row =>
    simp only [step]
    split <;> exact ⟨rfl, rfl, rfl, rfl, rfl⟩
  | sendFiles device paths =>
    simp only [step]
    split
    · exact (apart_frame.sendFiles device paths w).runs
    · exact .refl w
  | submitPin pin => exact (apart_frame.submitPin pin w).runs
  | cancel => exact (apart_frame.cancel w).runs
  | edit e => exact ⟨rfl, rfl, rfl, rfl, rfl⟩
  | settings s => exact ⟨rfl, rfl, rfl, rfl, rfl⟩
  | files files => exact ⟨rfl, rfl, rfl, rfl, rfl⟩
  | _ => cases he

/-- In any run the list is one that some calls lead to. -/
theorem devices_reached {w : Sender} (h : Lib.Reached system w) :
    Lib.Reached DeviceModel.system w.devices := by
  induction h with
  | start hs => exact .start hs.devices
  | @next w e _ _ ih =>
    change Lib.Reached DeviceModel.system (w.step e).devices
    rw [step_devices]
    exact ih.run_any (w.calls e)

end Sender

end LocalSend
