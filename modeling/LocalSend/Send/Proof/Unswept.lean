import Mathlib.Data.Finset.Card
import LocalSend.Send.Proof.Frames
import LocalSend.Send.Proof.Uploads

/-!
# What a sweep does not notice

`scans` are the probes of a sweep that are under way. `Unswept w v`: from `w` to `v` these stay the
same ones, none is posted, and the counters and the queue of the sweep are left alone. This holds of
every event that is part of no sweep (`step_unswept`), and of every request that is not a sweep's.
-/

set_option autoImplicit false

namespace LocalSend

def ReplySlot.isScan : ReplySlot → Bool
  | .scanned => true
  | _ => false

/-- The sweep is begun or cancelled, or a request is answered that may be its. -/
def SenderEvent.isSweep : SenderEvent → Bool
  | .scanSubnet _ | .cancelScan | .connects .. | .answered .. | .fails .. => true
  | _ => false

/-- What a probe of a sweep tries. -/
def Outbound.target? : Outbound → Option (QString × QString)
  | .posted ⟨scheme, host, _, _, _, .scanned⟩ => some (scheme, host)
  | _ => none

/-- What a sweep reads and writes. -/
def Discovery.sweep (d : Discovery) : List (QString × QString) × Nat × Nat × Nat × Bool × Nat :=
  (d.scanQueue, d.scanTotal, d.scanDone, d.scanInFlight, d.scanning, d.scanFinishes)

namespace Sender

/-- The probes of a sweep that are under way. -/
def scans (w : Sender) : Finset ReplyId :=
  (Finset.range w.nextReply).filter fun id => (w.replies id).any (·.request.slot.isScan) = true

/-- From `w` to `v` these targets were tried, in this order. -/
def Tries (targets : List (QString × QString)) (w v : Sender) : Prop :=
  ∃ l, v.log = w.log ++ l ∧ l.filterMap (·.what.target?) = targets

/-- The requests have the numbers up to the next one, and the one that the service waits for is
its own. -/
structure Numbered (w : Sender) : Prop where
  fresh : ∀ id, w.nextReply ≤ id → w.replies id = none
  reply : ∀ id, w.service.reply = some id → id < w.nextReply ∧
    ∀ r, w.replies id = some r → r.request.slot.isTransfer = true

/-- A sweep does not notice. -/
structure Unswept (w v : Sender) : Prop where
  numbered : w.Numbered → v.Numbered
  scans : w.Numbered → v.scans = w.scans
  sweep : v.discovery.sweep = w.discovery.sweep
  tries : Tries [] w v

variable {u v w : Sender} {id : ReplyId} {q : QNetworkRequest}

theorem Tries.trans {targets targets' : List (QString × QString)} (h : Tries targets u v)
    (h' : Tries targets' v w) : Tries (targets ++ targets') u w := by
  obtain ⟨l, hl, rfl⟩ := h
  obtain ⟨l', hl', rfl⟩ := h'
  exact ⟨l ++ l', by rw [hl', hl, List.append_assoc], List.filterMap_append⟩

theorem Tries.same (h : v.log = w.log) : Tries [] w v := ⟨[], by rw [h, List.append_nil], rfl⟩

theorem Numbered.mem_scans (h : w.Numbered) :
    id ∈ w.scans ↔ ∃ r, w.replies id = some r ∧ r.request.slot.isScan = true := by
  rw [scans, Finset.mem_filter, Finset.mem_range, Option.any_eq_true]
  refine ⟨And.right, fun hand => ⟨?_, hand⟩⟩
  obtain ⟨r, hr, -⟩ := hand
  by_contra hge
  cases (h.fresh id (Nat.le_of_not_lt hge)).symm.trans hr

theorem isScan_of_isTransfer {slot : ReplySlot} (h : slot.isTransfer = true) : slot.isScan = false := by
  cases slot <;> first | rfl | cases h

/-! ## What a sweep does not notice -/

theorem Unswept.refl (w : Sender) : Unswept w w := ⟨id, fun _ => rfl, rfl, .same rfl⟩

theorem Unswept.trans (h : Unswept u v) (h' : Unswept v w) : Unswept u w where
  numbered hu := h'.numbered (h.numbered hu)
  scans hu := (h'.scans (h.numbered hu)).trans (h.scans hu)
  sweep := h'.sweep.trans h.sweep
  tries := h.tries.trans h'.tries

/-- No request comes or goes. -/
theorem Unswept.same
    (hreplies : ∀ id, (v.replies id).map (·.request) = (w.replies id).map (·.request))
    (hnext : v.nextReply = w.nextReply)
    (hreply : v.service.reply = w.service.reply ∨ v.service.reply = none)
    (hsweep : v.discovery.sweep = w.discovery.sweep) (hlog : v.log = w.log) : Unswept w v where
  numbered h := by
    refine ⟨fun j hj => ?_, fun j hj => ?_⟩
    · have hmap := hreplies j
      rw [h.fresh j (hnext ▸ hj)] at hmap
      exact Option.map_eq_none_iff.1 hmap
    · rcases hreply with hreply | hreply
      · obtain ⟨hlt, hslot⟩ := h.reply j (hreply.symm.trans hj)
        refine ⟨hnext ▸ hlt, fun r hr => ?_⟩
        have hmap := hreplies j
        rw [hr] at hmap
        obtain ⟨r', hr', heq⟩ := Option.map_eq_some_iff.1 hmap.symm
        simp only at heq
        rw [← heq]
        exact hslot r' hr'
      · cases hreply.symm.trans hj
  scans _ := by
    have hany : ∀ id, (v.replies id).any (·.request.slot.isScan) =
        (w.replies id).any (·.request.slot.isScan) := by
      intro id
      have hmap := congrArg (Option.any fun q => q.slot.isScan) (hreplies id)
      simpa only [Option.any_map] using hmap
    simp only [Sender.scans, hnext, hany]
  sweep := hsweep
  tries := .same hlog

theorem emit_unswept {o : Outbound} (h : o.target? = none) (w : Sender) : Unswept w (w.emit o) :=
  ⟨fun hw => ⟨hw.fresh, hw.reply⟩, fun _ => rfl, rfl, [_], rfl, by simp [h]⟩

theorem Numbered.post (h : w.Numbered) (q : QNetworkRequest) : (w.post q).Numbered where
  fresh j hj := (post_ne (Nat.ne_of_gt hj) q).trans (h.fresh j (Nat.le_of_succ_le hj))
  reply j hj := by
    obtain ⟨hlt, hslot⟩ := h.reply j hj
    refine ⟨Nat.lt_succ_of_lt hlt, fun r hr => hslot r ?_⟩
    rwa [post_ne (Nat.ne_of_lt hlt)] at hr

theorem target?_of_slot (h : q.slot.isScan = false) : (Outbound.posted q).target? = none := by
  obtain ⟨_, _, _, _, _, slot⟩ := q
  cases slot <;> first | rfl | cases h

theorem post_unswept (h : q.slot.isScan = false) (w : Sender) : Unswept w (w.post q) where
  numbered hw := hw.post q
  scans hw := by
    ext j
    rw [(hw.post q).mem_scans, hw.mem_scans]
    by_cases hj : j = w.nextReply
    · subst hj
      rw [post_self, hw.fresh _ (Nat.le_refl _)]
      simp [h]
    · rw [post_ne hj]
  sweep := rfl
  tries := ⟨[_], rfl, by simp [target?_of_slot h]⟩

theorem Numbered.gone (h : w.Numbered) (id : ReplyId) : (w.setReply id none).Numbered := by
  refine ⟨fun j hj => ?_, fun j hj => ⟨(h.reply j hj).1, fun r hr => ?_⟩⟩
  · by_cases hne : j = id
    · subst hne
      exact setReply_self _ _ _
    · exact (setReply_ne hne _ _).trans (h.fresh j hj)
  · by_cases hne : j = id
    · subst hne
      rw [setReply_self] at hr
      cases hr
    · rw [setReply_ne hne] at hr
      exact (h.reply j hj).2 r hr

theorem Numbered.scans_gone (h : w.Numbered) (id : ReplyId) :
    (w.setReply id none).scans = w.scans.erase id := by
  ext j
  rw [(h.gone id).mem_scans, Finset.mem_erase, h.mem_scans]
  by_cases hne : j = id
  · subst hne
    rw [setReply_self]
    simp
  · rw [setReply_ne hne]
    simp [hne]

/-- A request that is none of a sweep's is gone. -/
theorem gone_unswept (h : w.Numbered → ∀ r, w.replies id = some r → r.request.slot.isScan = false) :
    Unswept w (w.setReply id none) := by
  refine ⟨fun hw => hw.gone id, fun hw => ?_, rfl, .same rfl⟩
  rw [hw.scans_gone, Finset.erase_eq_of_notMem]
  intro hmem
  obtain ⟨r, hr, hscan⟩ := hw.mem_scans.1 hmem
  cases (h hw r hr).symm.trans hscan

/-- A request leaves the device. -/
theorem mark_unswept {r : QNetworkReply} (hr : w.replies id = some r) (certificate : QByteArray)
    (seen : Option QByteArray) :
    Unswept w ((w.setReply id (some ⟨r.request, true, certificate⟩)).emit (.sent r.request seen)) := by
  have hmark : Unswept w (w.setReply id (some ⟨r.request, true, certificate⟩)) := by
    refine .same (fun j => ?_) rfl (.inl rfl) rfl rfl
    by_cases hne : j = id
    · subst hne
      rw [setReply_self, hr]
      rfl
    · rw [setReply_ne hne]
  exact hmark.trans (emit_unswept rfl _)

theorem unswept_frame : Frame Unswept where
  trans := Unswept.trans
  noted h := .same (fun id => by rw [h.replies]) h.nextReply h.reply (by rw [h.discovery]) h.log
  service _ _ _ _ h := .same (fun _ => rfl) rfl h rfl rfl
  abort id w h := gone_unswept fun hw r hr => isScan_of_isTransfer ((hw.reply id h).2 r hr)
  post q w h := post_unswept (by rw [h]; rfl) w
  postToPeer content slot w h := by
    have hpost := post_unswept (q := requestTo w.service.peer content slot)
      (isScan_of_isTransfer h) w
    refine ⟨fun hw => ?_, fun hw => ?_, hpost.sweep, hpost.tries⟩
    · refine ⟨(hpost.numbered hw).fresh, fun j hj => ?_⟩
      obtain rfl := Option.some.inj hj
      refine ⟨Nat.lt_succ_self _, fun r hr => ?_⟩
      obtain rfl := Option.some.inj ((post_self _ _).symm.trans hr)
      exact h
    · exact hpost.scans hw

section
variable [Qt]

omit [Qt] in
/-- A change of the list of devices, or of what `Discovery` remembers of something else. -/
theorem discovery_unswept (d : Discovery) (m : DeviceModel) (w : Sender)
    (h : d.sweep = w.discovery.sweep) : Unswept w { w with discovery := d, devices := m } := .same (fun _ => rfl) rfl (.inl rfl) h rfl

theorem acceptRegisterReply_same (r : QNetworkReply) (error : Bool) (body : QByteArray) (w : Sender) :
    ∃ m, (w.acceptRegisterReply r error body).2 = { w with devices := m } := by
  unfold acceptRegisterReply
  split
  · exact ⟨_, rfl⟩
  · split
    · exact ⟨_, rfl⟩
    · simp only
      split_ifs <;> exact ⟨_, rfl⟩

theorem probeBoth_unswept (host : QString) (port : Int) {slot : ReplySlot}
    (hs : slot.isScan = false) (w : Sender) : Unswept w (w.probeBoth host port slot) :=
  (post_unswept hs w).trans (post_unswept hs _)

theorem announce_unswept (w : Sender) : Unswept w w.announce := by
  have hsent : Unswept w w.sendAnnouncement := by
    unfold sendAnnouncement
    split
    · exact emit_unswept rfl w
    · exact .refl w
  have hmanual : ∀ (endpoints : List (QString × Int)) (w : Sender),
      Unswept w (endpoints.foldl (fun w endpoint =>
        if endpoint.1 = [] ∨ endpoint.2 ≤ 0 then w
        else w.probeBoth endpoint.1 endpoint.2 .refreshed) w) := by
    intro endpoints
    induction endpoints with
    | nil => exact .refl
    | cons endpoint endpoints ih =>
      intro w
      rw [List.foldl_cons]
      refine Unswept.trans ?_ (ih _)
      split
      · exact .refl w
      · exact probeBoth_unswept _ _ rfl w
  exact (hsent.trans (hmanual _ _)).trans (discovery_unswept _ _ _ (by rfl))

theorem startDiscovery_unswept (binds : Bool) (w : Sender) : Unswept w (w.startDiscovery binds) := by
  unfold startDiscovery
  split
  · exact .refl w
  · extract_lets d v
    have hv : Unswept w v := discovery_unswept _ _ w (by rfl)
    split
    · exact (hv.trans (announce_unswept v)).trans (discovery_unswept _ _ _ (by rfl))
    · exact hv

theorem burst_unswept (w : Sender) : Unswept w w.burst := by
  unfold burst
  split
  · exact .refl w
  · exact (discovery_unswept _ _ w (by rfl)).trans (announce_unswept _)

theorem handlePayload_unswept (payload : QJsonObject) (address : QString) (w : Sender) :
    Unswept w (w.handlePayload payload address) := by
  unfold handlePayload
  extract_lets peer peer' v
  have hv : Unswept w v := discovery_unswept _ _ _ (by rfl)
  split
  · exact .refl w
  · split
    · refine hv.trans ?_
      unfold respondTo
      split
      · exact .refl v
      · extract_lets table d x y
        have hx : Unswept v x := discovery_unswept _ _ v (by rfl)
        have hy : Unswept x y := by
          simp only [y]
          split
          · exact emit_unswept rfl x
          · exact .refl x
        refine (hx.trans hy).trans ?_
        unfold postRegister
        split
        · exact .refl y
        · exact post_unswept rfl y
    · exact hv

theorem onManualReplyFinished_unswept (r : QNetworkReply) (error : Bool) (body : QByteArray)
    (w : Sender) : Unswept w (w.onManualReplyFinished r error body) := by
  unfold onManualReplyFinished
  extract_lets d v
  have hv : Unswept w v := discovery_unswept _ _ w (by rfl)
  split
  · exact hv
  · obtain ⟨m, hm⟩ := acceptRegisterReply_same r error body v
    rcases hr : v.acceptRegisterReply r error body with ⟨ok, u⟩
    rw [hr] at hm
    simp only at hm ⊢
    have hu : Unswept v u := by
      rw [hm]
      exact discovery_unswept _ m v (by rfl)
    split
    · exact (hv.trans hu).trans (discovery_unswept _ _ u (by rfl))
    · exact hv.trans hu

theorem onRegisterFinished_unswept (r : QNetworkReply) (error : Bool) (body : QByteArray)
    (w : Sender) : Unswept w (w.onRegisterFinished r error body) := by
  unfold onRegisterFinished
  split
  · exact .refl w
  · split
    · exact .refl w
    · simp only
      split
      · exact .refl w
      · exact discovery_unswept _ _ _ (by rfl)

/-- A request is finished that is none of a sweep's. -/
theorem finish_unswept {r : QNetworkReply} (hr : w.replies id = some r)
    (h : r.request.slot.isScan = false) (error : Bool) (status : Nat) (errorString : QString)
    (body : QByteArray) : Unswept w (w.finish id r error status errorString body) := by
  have hgone : Unswept w (w.setReply id none) := by
    refine gone_unswept fun _ q hq => ?_
    obtain rfl := Option.some.inj (hr.symm.trans hq)
    exact h
  refine hgone.trans ?_
  cases hs : r.request.slot with
  | registered =>
    unfold finish
    rw [hs]
    exact onRegisterFinished_unswept r error body _
  | refreshed =>
    unfold finish
    rw [hs]
    obtain ⟨m, hm⟩ := acceptRegisterReply_same r error body (w.setReply id none)
    simp only
    rw [hm]
    exact discovery_unswept _ m _ (by rfl)
  | manual =>
    unfold finish
    rw [hs]
    exact onManualReplyFinished_unswept r error body _
  | scanned =>
    rw [hs] at h
    cases h
  | _ => exact unswept_frame.finish (by simp [hs, ReplySlot.isTransfer]) id error status errorString body w

/-- The event is part of no sweep. -/
theorem step_unswept {e : SenderEvent} (he : e.isSweep = false) (w : Sender) :
    Unswept w (w.step e) := by
  cases e with
  | datagram payload address =>
    simp only [step]
    split
    · exact handlePayload_unswept payload address w
    · exact .refl w
  | register payload address =>
    simp only [step, registerPeer]
    split
    · exact .refl w
    · exact discovery_unswept _ _ w (by rfl)
  | announceTimer =>
    simp only [step]
    split
    · exact announce_unswept w
    · exact .refl w
  | burst => exact burst_unswept w
  | start binds => exact startDiscovery_unswept binds w
  | stop =>
    simp only [step, stopDiscovery]
    split
    · exact .refl w
    · exact discovery_unswept _ _ w (by rfl)
  | refresh binds =>
    simp only [step, refresh]
    split
    · exact announce_unswept w
    · exact startDiscovery_unswept binds w
  | addDeviceAt host port =>
    simp only [step, addDeviceAt]
    split
    · exact .refl w
    · exact (discovery_unswept _ w.devices w (by rfl)).trans (probeBoth_unswept _ _ rfl _)
  | uploadProgress id sent =>
    simp only [step]
    split
    · exact .same (fun _ => rfl) rfl (.inl rfl) rfl rfl
    · exact .refl w
  | hold row =>
    simp only [step]
    split
    · exact .same (fun _ => rfl) rfl (.inl rfl) rfl rfl
    · exact .refl w
  | sendFiles device paths =>
    simp only [step]
    split
    · exact unswept_frame.sendFiles device paths w
    · exact .refl w
  | submitPin pin => exact unswept_frame.submitPin pin w
  | cancel => exact unswept_frame.cancel w
  | edit e => exact .same (fun _ => rfl) rfl (.inl rfl) rfl rfl
  | settings s => exact .same (fun _ => rfl) rfl (.inl rfl) rfl rfl
  | files files => exact .same (fun _ => rfl) rfl (.inl rfl) rfl rfl
  | tick ms => exact .same (fun _ => rfl) rfl (.inl rfl) rfl rfl
  | _ => cases he

end

end Sender

end LocalSend
