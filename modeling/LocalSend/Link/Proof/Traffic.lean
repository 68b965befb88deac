import LocalSend.Link.Lan
import LocalSend.Send.Proof.Listed
import Mathlib.Algebra.BigOperators.Group.Finset.Basic

/-!
# What a device has under way

`underway` weighs the requests by which a device introduces itself, and those that a scan has still to
send. What the network brings makes it no heavier, but for an announcement that is answered
(`datagram_underway`), and lighter where a request comes to its end (`finish_underway`).
-/

set_option autoImplicit false

namespace LocalSend

/-- What may still come of a request: it is sent, it is answered, the answer is heard. -/
def QNetworkReply.weight (r : QNetworkReply) : Nat :=
  if r.request.slot.isGreeting then if r.sent then 1 else 3 else 0

namespace Sender

def load (r : Option QNetworkReply) : Nat := (r.map QNetworkReply.weight).getD 0

/-- The requests that are under way. -/
def pending (w : Sender) : Nat := ∑ id ∈ Finset.range w.nextReply, load (w.replies id)

def underway (w : Sender) : Nat := w.pending + 4 * w.discovery.scanQueue.length

/-- From `w` to `v` these datagrams left the device. -/
def Utters (datagrams : List Outbound) (w v : Sender) : Prop :=
  ∃ l, v.log = w.log ++ l ∧ (l.map (·.what)).filter (·.isDatagram) = datagrams

/-- No datagram left the device, and no more is under way than before. -/
structure Eases (w v : Sender) : Prop where
  utters : Utters [] w v
  underway : v.underway ≤ w.underway

variable {u v w : Sender}

theorem Utters.trans {datagrams datagrams' : List Outbound} (h : Utters datagrams u v)
    (h' : Utters datagrams' v w) : Utters (datagrams ++ datagrams') u w := by
  obtain ⟨l, hl, rfl⟩ := h
  obtain ⟨l', hl', rfl⟩ := h'
  exact ⟨l ++ l', by rw [hl', hl, List.append_assoc], by rw [List.map_append, List.filter_append]⟩

theorem Utters.same (h : v.log = w.log) : Utters [] w v := ⟨[], by rw [h, List.append_nil], rfl⟩

theorem emit_utters (o : Outbound) (w : Sender) :
    Utters (if o.isDatagram then [o] else []) w (w.emit o) :=
  ⟨[_], rfl, List.filter_cons⟩

theorem post_utters (q : QNetworkRequest) (w : Sender) : Utters [] w (w.post q) :=
  emit_utters (.posted q) _

theorem Eases.refl (w : Sender) : Eases w w := ⟨.same rfl, Nat.le_refl _⟩

theorem Eases.trans (h : Eases u v) (h' : Eases v w) : Eases u w :=
  ⟨h.utters.trans h'.utters, Nat.le_trans h'.underway h.underway⟩

theorem pending_same (hnext : v.nextReply = w.nextReply) (hreplies : v.replies = w.replies) :
    v.pending = w.pending := by
  unfold pending
  rw [hnext, hreplies]

theorem underway_same (hnext : v.nextReply = w.nextReply) (hreplies : v.replies = w.replies)
    (hqueue : v.discovery.scanQueue = w.discovery.scanQueue) : v.underway = w.underway := by
  unfold underway
  rw [pending_same hnext hreplies, hqueue]

theorem pending_post (q : QNetworkRequest) (w : Sender) :
    (w.post q).pending = w.pending + if q.slot.isGreeting then 3 else 0 := by
  have hrest : ∑ id ∈ Finset.range w.nextReply, load ((w.post q).replies id) = w.pending := by
    refine Finset.sum_congr rfl fun id hid => ?_
    have hlt := Finset.mem_range.1 hid
    exact congrArg load (Function.update_of_ne (Nat.ne_of_lt hlt) _ _)
  have hnew : (w.post q).replies w.nextReply = some { request := q } := Function.update_self ..
  have hload : load (some { request := q }) = if q.slot.isGreeting then 3 else 0 := rfl
  unfold pending at hrest ⊢
  rw [show (w.post q).nextReply = w.nextReply + 1 from rfl, Finset.sum_range_succ, hrest, hnew, hload]

theorem pending_setReply {id : ReplyId} (hid : id < w.nextReply) (r : Option QNetworkReply) :
    (w.setReply id r).pending + load (w.replies id) = w.pending + load r := by
  have hmem : id ∈ Finset.range w.nextReply := Finset.mem_range.2 hid
  have hold := Finset.add_sum_erase (Finset.range w.nextReply) (fun j => load (w.replies j)) hmem
  have hnew := Finset.add_sum_erase (Finset.range w.nextReply)
    (fun j => load ((w.setReply id r).replies j)) hmem
  have hrest : ∑ j ∈ (Finset.range w.nextReply).erase id, load ((w.setReply id r).replies j) =
      ∑ j ∈ (Finset.range w.nextReply).erase id, load (w.replies j) :=
    Finset.sum_congr rfl fun j hj =>
      congrArg load (Function.update_of_ne (Finset.ne_of_mem_erase hj) _ _)
  have hself : (w.setReply id r).replies id = r := Function.update_self ..
  unfold pending
  rw [show (w.setReply id r).nextReply = w.nextReply from rfl]
  simp only [hself] at hold hnew
  omega

/-- The list of devices changes, or what `Discovery` remembers apart from the scan. -/
theorem Eases.same {d : Discovery} (m : DeviceModel) (w : Sender)
    (hqueue : d.scanQueue = w.discovery.scanQueue) :
    Eases w { w with discovery := d, devices := m } :=
  ⟨.same rfl, Nat.le_of_eq (underway_same rfl rfl hqueue)⟩

section
variable [Qt]

/-! ## Scans -/

theorem pumpQueue_traffic (queue : List (QString × QString)) (w : Sender) :
    Utters [] w (pumpQueue queue w) ∧
      (pumpQueue queue w).underway ≤ w.pending + 4 * queue.length := by
  induction queue generalizing w with
  | nil => exact ⟨.same rfl, Nat.le_refl _⟩
  | cons target rest ih =>
    obtain ⟨scheme, host⟩ := target
    unfold pumpQueue
    split
    · extract_lets v
      have hv : Utters [] w v := post_utters _ w
      have hpost : v.pending = w.pending + 3 := pending_post _ w
      obtain ⟨hutters, hle⟩ := ih { v with
        discovery := { v.discovery with scanInFlight := v.discovery.scanInFlight + 1 } }
      refine ⟨hv.trans hutters, Nat.le_trans hle ?_⟩
      change v.pending + _ ≤ _
      rw [List.length_cons]
      omega
    · exact ⟨.same rfl, Nat.le_refl _⟩

theorem pumpScanQueue_eases (w : Sender) : Eases w w.pumpScanQueue := by
  unfold pumpScanQueue
  extract_lets v
  have hv : Eases w v := by
    simp only [v]
    split
    · exact ⟨(pumpQueue_traffic _ w).1, (pumpQueue_traffic _ w).2⟩
    · exact .refl w
  split
  · exact hv.trans (.same v.devices v rfl)
  · exact hv

/-! ## Answers -/

theorem upsert_eases (peer : DeviceInfo) (w : Sender) : Eases w (w.upsert peer) :=
  .same _ w rfl

theorem acceptRegisterReply_eases (r : QNetworkReply) (error : Bool) (body : QByteArray)
    (w : Sender) : Eases w (w.acceptRegisterReply r error body).2 := by
  rw [acceptRegisterReply_eq]
  split
  · exact upsert_eases _ w
  · exact .refl w

theorem onRegisterFinished_eases (r : QNetworkReply) (error : Bool) (body : QByteArray)
    (w : Sender) : Eases w (w.onRegisterFinished r error body) := by
  rw [onRegisterFinished_eq]
  split
  · exact upsert_eases _ w
  · exact .refl w

theorem onManualReplyFinished_eases (r : QNetworkReply) (error : Bool) (body : QByteArray)
    (w : Sender) : Eases w (w.onManualReplyFinished r error body) := by
  unfold onManualReplyFinished
  extract_lets d v
  have hv : Eases w v := .same w.devices w rfl
  split
  · exact hv
  · have haccept := acceptRegisterReply_eases r error body v
    rcases hok : v.acceptRegisterReply r error body with ⟨ok, u⟩
    rw [hok] at haccept
    simp only
    split
    · exact (hv.trans haccept).trans (.same u.devices u rfl)
    · exact hv.trans haccept

theorem onScanReplyFinished_eases (r : QNetworkReply) (error : Bool) (body : QByteArray)
    (w : Sender) : Eases w (w.onScanReplyFinished r error body) := by
  unfold onScanReplyFinished
  extract_lets d v
  have hv : Eases w v := .same w.devices w rfl
  exact (hv.trans (acceptRegisterReply_eases r error body v)).trans (pumpScanQueue_eases _)

/-- The slot of a request that introduced this device. -/
theorem finish_eases {id : ReplyId} {r : QNetworkReply}
    (hslot : r.request.slot.isGreeting = true) (error : Bool) (status : Nat)
    (errorString : QString) (body : QByteArray) :
    Eases (w.setReply id none) (w.finish id r error status errorString body) := by
  unfold finish
  extract_lets v
  cases hs : r.request.slot with
  | registered => exact onRegisterFinished_eases r error body v
  | refreshed => exact acceptRegisterReply_eases r error body v
  | manual => exact onManualReplyFinished_eases r error body v
  | scanned => exact onScanReplyFinished_eases r error body v
  | _ =>
    rw [hs] at hslot
    cases hslot

omit [Qt] in
theorem setReply_underway {id : ReplyId} (hid : id < w.nextReply) (r : Option QNetworkReply) :
    (w.setReply id r).underway + load (w.replies id) = w.underway + load r := by
  have hload := pending_setReply hid r
  unfold underway
  change (w.setReply id r).pending + 4 * w.discovery.scanQueue.length + _ = _
  omega

/-- With the request goes its weight. -/
theorem finish_underway {id : ReplyId} {r : QNetworkReply} (hid : id < w.nextReply)
    (hr : w.replies id = some r) (hslot : r.request.slot.isGreeting = true) (error : Bool)
    (status : Nat) (errorString : QString) (body : QByteArray) :
    Utters [] w (w.finish id r error status errorString body) ∧
      (w.finish id r error status errorString body).underway + r.weight ≤ w.underway := by
  have hgone := setReply_underway hid none
  rw [hr] at hgone
  have heases : Eases (w.setReply id none) (w.finish id r error status errorString body) :=
    finish_eases hslot error status errorString body
  obtain ⟨hutters, hle⟩ := heases
  change _ + r.weight = _ + 0 at hgone
  exact ⟨hutters, by omega⟩

/-- A request that leaves has one way to go and one back. -/
theorem connect_underway {id : ReplyId} {r : QNetworkReply} (hid : id < w.nextReply)
    (hr : w.replies id = some r) (hslot : r.request.slot.isGreeting = true) (hsent : r.sent = false)
    {certificate : QByteArray} {reported : Bool} (hc : r.request.connects certificate reported = true) :
    Utters [] w (w.connect id r certificate reported) ∧
      (w.connect id r certificate reported).underway + 2 = w.underway := by
  unfold connect
  rw [if_neg (by rw [hsent]; exact Bool.false_ne_true), if_pos hc]
  extract_lets seen
  have hmark := setReply_underway hid (some { r with sent := true, certificate := seen.getD [] })
  have hbefore : load (some r) = 3 := by
    simp only [load, Option.map_some, Option.getD_some, QNetworkReply.weight, hslot, hsent, if_true,
      Bool.false_eq_true, if_false]
  have hafter : load (some { r with sent := true, certificate := seen.getD [] }) = 1 := by
    simp only [load, Option.map_some, Option.getD_some, QNetworkReply.weight, hslot, if_true]
  rw [hr, hbefore, hafter] at hmark
  refine ⟨emit_utters (.sent r.request seen) _, ?_⟩
  change (w.setReply id _).underway + 2 = _
  omega

/-- The answer to a request that introduced this device, however it ended. -/
theorem answered_eases {id : ReplyId} (hid : id < w.nextReply)
    (hslot : ∀ r, w.replies id = some r → r.request.slot.isGreeting = true) (error : Bool)
    (status : Nat) (errorString : QString) (body : QByteArray) :
    Eases w (w.step (.answered id error status errorString body)) := by
  simp only [step]
  split
  · rename_i r hr
    split
    · obtain ⟨hutters, hle⟩ := finish_underway hid hr (hslot r hr) error status errorString body
      exact ⟨hutters, Nat.le_trans (Nat.le_add_right _ _) hle⟩
    · exact .refl w
  · exact .refl w

/-! ## Introductions -/

/-- The payload asks for an answer. -/
def announces (payload : QJsonObject) : Bool := (payload.value (str "announce")).toBool false

theorem registerPeer_eases (payload : QJsonObject) (address : QString) (w : Sender) :
    Eases w (w.registerPeer payload address) := by
  unfold registerPeer
  simp only
  split
  · exact .refl w
  · exact upsert_eases _ w

theorem postRegister_traffic (peer : DeviceInfo) (w : Sender) :
    Utters [] w (w.postRegister peer) ∧ (w.postRegister peer).underway ≤ w.underway + 3 := by
  unfold postRegister
  split
  · exact ⟨.same rfl, Nat.le_add_right _ _⟩
  · have hpost : (w.post (requestTo peer (.introduction w.registerBody) .registered)).pending =
        w.pending + 3 := pending_post _ w
    refine ⟨post_utters _ w, ?_⟩
    unfold underway
    rw [hpost]
    change _ + 4 * w.discovery.scanQueue.length ≤ _
    omega

/-- What answers an announcement of `peer`. -/
def answering (peer : DeviceInfo) (w : Sender) : List Outbound :=
  if w.discovery.socket ∧ w.isCooling peer.address = false then
    [.answered peer.address peer.fingerprint]
  else []

theorem respondTo_traffic (peer : DeviceInfo) (w : Sender) :
    Utters (w.answering peer) w (w.respondTo peer) ∧
      (w.respondTo peer).underway ≤ w.underway + 3 := by
  cases hcooling : w.isCooling peer.address with
  | true =>
    have hsame : w.respondTo peer = w := if_pos hcooling
    have hnone : w.answering peer = [] := if_neg fun hand => by
      rw [hcooling] at hand
      cases hand.2
    rw [hsame, hnone]
    exact ⟨.same rfl, Nat.le_add_right _ _⟩
  | false =>
    unfold respondTo
    rw [if_neg (by rw [hcooling]; exact Bool.false_ne_true)]
    extract_lets table d v u
    have hu : Utters (w.answering peer) w u ∧ u.underway = w.underway := by
      unfold answering
      simp only [u, hcooling, and_true]
      split
      · exact ⟨emit_utters (.answered peer.address peer.fingerprint) v, rfl⟩
      · exact ⟨.same rfl, rfl⟩
    obtain ⟨hposted, hle⟩ := postRegister_traffic peer u
    have hutters := hu.1.trans hposted
    rw [List.append_nil] at hutters
    exact ⟨hutters, hu.2 ▸ hle⟩

/-- What announces nothing is not answered. -/
theorem datagram_eases {payload : QJsonObject} (h : announces payload = false) (address : QString)
    (w : Sender) : Eases w (w.step (.datagram payload address)) := by
  simp only [step]
  split
  · unfold handlePayload
    extract_lets peer peer' v
    rw [show (payload.value (str "announce")).toBool false = false from h]
    split
    · exact .refl w
    · exact upsert_eases peer' w
  · exact .refl w

/-- An announcement is answered at most once. -/
theorem datagram_traffic (payload : QJsonObject) (address : QString) (w : Sender) :
    ∃ l, Utters l w (w.step (.datagram payload address)) ∧
      (w.step (.datagram payload address)).underway ≤ w.underway + 3 ∧
      (l = [] ∨ l = [.answered address (announcer payload address).fingerprint]) ∧
      (w.discovery.socket = true → w.Announces payload address → l ≠ []) := by
  simp only [step]
  split
  · rename_i hsocket
    unfold handlePayload
    extract_lets peer peer' v
    split
    · rename_i hown
      refine ⟨[], .same rfl, Nat.le_add_right _ _, .inl rfl, fun _ ha => ?_⟩
      exact absurd hown (not_or.2 ⟨not_not.2 ha.isValid, ha.other⟩)
    · split
      · obtain ⟨hutters, hle⟩ := respondTo_traffic peer' v
        refine ⟨_, hutters, hle, ?_, fun _ ha => ?_⟩
        · unfold answering
          split
          · exact .inr rfl
          · exact .inl rfl
        · have hcooling : v.isCooling peer'.address = false := ha.isCooling
          rw [show v.answering peer' = [_] from if_pos ⟨hsocket, hcooling⟩]
          exact List.cons_ne_nil _ _
      · rename_i hannounce
        exact ⟨[], .same rfl, Nat.le_add_right _ _, .inl rfl, fun _ ha => absurd ha.announce hannounce⟩
  · rename_i hsocket
    exact ⟨[], .same rfl, Nat.le_add_right _ _, .inl rfl, fun hs => absurd hs hsocket⟩

/-! ## Announcements -/

theorem probeBoth_traffic (host : QString) (port : Int) {slot : ReplySlot}
    (hslot : slot.isGreeting = true) (w : Sender) :
    Utters [] w (w.probeBoth host port slot) ∧
      (w.probeBoth host port slot).underway = w.underway + 6 := by
  have hone : ∀ (scheme : QString) (v : Sender),
      (v.probe host port scheme slot).underway = v.underway + 3 := by
    intro scheme v
    unfold underway probe
    rw [pending_post, if_pos hslot]
    change _ + 4 * v.discovery.scanQueue.length = _
    omega
  refine ⟨(post_utters _ w).trans (post_utters _ _), ?_⟩
  unfold probeBoth
  rw [hone, hone]

theorem refreshManualDevices_traffic (w : Sender) :
    Utters [] w w.refreshManualDevices ∧ w.refreshManualDevices.underway ≤
      w.underway + 6 * w.discovery.manualDevices.length := by
  unfold refreshManualDevices
  generalize w.discovery.manualDevices = endpoints
  induction endpoints generalizing w with
  | nil => exact ⟨.same rfl, Nat.le_refl _⟩
  | cons endpoint endpoints ih =>
    obtain ⟨host, port⟩ := endpoint
    rw [List.foldl_cons, List.length_cons]
    simp only
    split
    · obtain ⟨hutters, hle⟩ := ih w
      exact ⟨hutters, Nat.le_trans hle (by omega)⟩
    · have hgreeting : ReplySlot.refreshed.isGreeting = true := rfl
      obtain ⟨hboth, heq⟩ := probeBoth_traffic host port hgreeting w
      obtain ⟨hutters, hle⟩ := ih (w.probeBoth host port .refreshed)
      exact ⟨hboth.trans hutters, Nat.le_trans hle (by omega)⟩

theorem announce_traffic (w : Sender) :
    Utters (if w.discovery.socket then [.announced] else []) w w.announce ∧
      w.announce.underway ≤ w.underway + 6 * w.discovery.manualDevices.length := by
  have hsent : Utters (if w.discovery.socket then [.announced] else []) w w.sendAnnouncement ∧
      w.sendAnnouncement.underway = w.underway ∧
      w.sendAnnouncement.discovery.manualDevices = w.discovery.manualDevices := by
    unfold sendAnnouncement
    split
    · exact ⟨emit_utters .announced w, rfl, rfl⟩
    · exact ⟨.same rfl, rfl, rfl⟩
  obtain ⟨hrefreshed, hle⟩ := refreshManualDevices_traffic w.sendAnnouncement
  have hpruned : Eases w.sendAnnouncement.refreshManualDevices w.announce := .same _ _ rfl
  refine ⟨?_, Nat.le_trans hpruned.underway ?_⟩
  · have hutters := (hsent.1.trans hrefreshed).trans hpruned.utters
    rwa [List.append_nil, List.append_nil] at hutters
  · rw [hsent.2.1, hsent.2.2] at hle
    exact hle

end

end Sender

end LocalSend
