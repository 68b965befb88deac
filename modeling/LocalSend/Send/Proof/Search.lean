import LocalSend.Send.Proof.Spelled
import LocalSend.Send.Proof.Uploads

/-!
# What the search for devices is made of

`Search R`: the relation `R` between a state and a later one lasts through everything `Discovery` is
made of: what it remembers, the list of devices, the datagrams it sends, and the requests by which it
introduces this device. Then it lasts through each of its slots (`Search.step`, `Search.finish`).
`Introduces` is such a relation: the body of such a request describes this device.
-/

set_option autoImplicit false

namespace LocalSend

namespace Sender

variable [Qt]

structure Search (R : Sender → Sender → Prop) : Prop where
  trans : ∀ {u v w : Sender}, R u v → R v w → R u w
  same : ∀ (d : Discovery) (m : DeviceModel) (w : Sender),
    R w { w with discovery := d, devices := m }
  emit : ∀ (o : Outbound) (w : Sender), o.isDatagram = true → R w (w.emit o)
  post : ∀ (q : QNetworkRequest) (w : Sender), q.slot.isGreeting = true →
    q.content = .introduction w.registerBody → R w (w.post q)

namespace Search

variable {R : Sender → Sender → Prop} (hR : Search R)
include hR

theorem refl (w : Sender) : R w w := hR.same w.discovery w.devices w

theorem upsert (peer : DeviceInfo) (w : Sender) : R w (w.upsert peer) := hR.same _ _ w

theorem probeBoth (host : QString) (port : Int) {slot : ReplySlot} (hs : slot.isGreeting = true)
    (w : Sender) : R w (w.probeBoth host port slot) :=
  hR.trans (hR.post _ w hs rfl) (hR.post _ _ hs rfl)

theorem refreshManualDevices (w : Sender) : R w w.refreshManualDevices := by
  unfold Sender.refreshManualDevices
  generalize w.discovery.manualDevices = endpoints
  induction endpoints generalizing w with
  | nil => exact hR.refl w
  | cons endpoint endpoints ih =>
    rw [List.foldl_cons]
    refine hR.trans ?_ (ih _)
    simp only
    split
    · exact hR.refl w
    · exact hR.probeBoth _ _ rfl w

theorem announce (w : Sender) : R w w.announce := by
  have hsent : R w w.sendAnnouncement := by
    unfold sendAnnouncement
    split
    · exact hR.emit _ w rfl
    · exact hR.refl w
  exact hR.trans (hR.trans hsent (hR.refreshManualDevices _)) (hR.same _ _ _)

theorem startDiscovery (binds : Bool) (w : Sender) : R w (w.startDiscovery binds) := by
  unfold Sender.startDiscovery
  split
  · exact hR.refl w
  · extract_lets d v
    have hv : R w v := hR.same _ _ w
    split
    · exact hR.trans (hR.trans hv (hR.announce v)) (hR.same _ _ _)
    · exact hv

theorem respondTo (peer : DeviceInfo) (w : Sender) : R w (w.respondTo peer) := by
  unfold Sender.respondTo
  split
  · exact hR.refl w
  · extract_lets table d v u
    have hv : R w v := hR.same _ _ w
    have hu : R v u := by
      simp only [u]
      split
      · exact hR.emit _ v rfl
      · exact hR.refl v
    refine hR.trans (hR.trans hv hu) ?_
    unfold postRegister
    split
    · exact hR.refl u
    · exact hR.post _ u rfl rfl

theorem handlePayload (payload : QJsonObject) (address : QString) (w : Sender) :
    R w (w.handlePayload payload address) := by
  unfold Sender.handlePayload
  extract_lets peer peer' v
  have hv : R w v := hR.upsert peer' w
  split
  · exact hR.refl w
  · split
    · exact hR.trans hv (hR.respondTo peer' v)
    · exact hv

theorem registerPeer (payload : QJsonObject) (address : QString) (w : Sender) :
    R w (w.registerPeer payload address) := by
  unfold Sender.registerPeer
  simp only
  split
  · exact hR.refl w
  · exact hR.upsert _ w

/-! ## Sweeps -/

theorem pumpQueue (queue : List (QString × QString)) (w : Sender) : R w (pumpQueue queue w) := by
  induction queue generalizing w with
  | nil => exact hR.same _ _ w
  | cons target rest ih =>
    obtain ⟨scheme, host⟩ := target
    unfold Sender.pumpQueue
    split
    · exact hR.trans (hR.trans (hR.post _ w rfl rfl) (hR.same _ _ _)) (ih _)
    · exact hR.same _ _ w

theorem pumpScanQueue (w : Sender) : R w w.pumpScanQueue := by
  unfold Sender.pumpScanQueue
  extract_lets v
  have hv : R w v := by
    simp only [v]
    split
    · exact hR.pumpQueue _ w
    · exact hR.refl w
  split
  · exact hR.trans hv (hR.same _ _ v)
  · exact hv

theorem scanSubnet (mine : List QString) (w : Sender) : R w (w.scanSubnet mine) := by
  unfold Sender.scanSubnet
  split
  · exact hR.refl w
  · extract_lets queue d v
    have hv : R w v := hR.same _ _ w
    split
    · exact hv
    · exact hR.trans (hR.trans hv (hR.same _ _ v)) (hR.pumpScanQueue _)

theorem cancelScan (w : Sender) : R w w.cancelScan := by
  unfold Sender.cancelScan
  split
  · exact hR.refl w
  · extract_lets d v
    have hv : R w v := hR.same _ _ w
    split
    · exact hR.trans hv (hR.same _ _ v)
    · exact hv

/-! ## Answers -/

theorem acceptRegisterReply (r : QNetworkReply) (error : Bool) (body : QByteArray) (w : Sender) :
    R w (w.acceptRegisterReply r error body).2 := by
  unfold Sender.acceptRegisterReply
  split
  · exact hR.refl w
  · split
    · exact hR.refl w
    · simp only
      split_ifs
      · exact hR.refl w
      · exact hR.refl w
      · exact hR.upsert _ w

theorem onRegisterFinished (r : QNetworkReply) (error : Bool) (body : QByteArray) (w : Sender) :
    R w (w.onRegisterFinished r error body) := by
  unfold Sender.onRegisterFinished
  split
  · exact hR.refl w
  · split
    · exact hR.refl w
    · simp only
      split
      · exact hR.refl w
      · exact hR.upsert _ w

theorem onManualReplyFinished (r : QNetworkReply) (error : Bool) (body : QByteArray) (w : Sender) :
    R w (w.onManualReplyFinished r error body) := by
  unfold Sender.onManualReplyFinished
  extract_lets d v
  have hv : R w v := hR.same _ _ w
  split
  · exact hv
  · have haccept := hR.acceptRegisterReply r error body v
    rcases hr : v.acceptRegisterReply r error body with ⟨ok, u⟩
    rw [hr] at haccept
    simp only
    split
    · exact hR.trans (hR.trans hv haccept) (hR.same _ _ u)
    · exact hR.trans hv haccept

theorem onScanReplyFinished (r : QNetworkReply) (error : Bool) (body : QByteArray) (w : Sender) :
    R w (w.onScanReplyFinished r error body) := by
  unfold Sender.onScanReplyFinished
  extract_lets d v
  have hv : R w v := hR.same _ _ w
  exact hR.trans (hR.trans hv (hR.acceptRegisterReply r error body v)) (hR.pumpScanQueue _)

/-- The slot of a request that introduced this device. -/
theorem finish {id : ReplyId} {r : QNetworkReply} (hslot : r.request.slot.isGreeting = true)
    (error : Bool) (status : Nat) (errorString : QString) (body : QByteArray) (w : Sender) :
    R (w.setReply id none) (w.finish id r error status errorString body) := by
  unfold Sender.finish
  extract_lets v
  cases hs : r.request.slot with
  | registered => exact hR.onRegisterFinished r error body v
  | refreshed => exact hR.acceptRegisterReply r error body v
  | manual => exact hR.onManualReplyFinished r error body v
  | scanned => exact hR.onScanReplyFinished r error body v
  | _ =>
    rw [hs] at hslot
    cases hslot

theorem step {e : SenderEvent} (he : e.isDiscovery = true) (w : Sender) : R w (w.step e) := by
  cases e with
  | datagram payload address =>
    simp only [Sender.step]
    split
    · exact hR.handlePayload payload address w
    · exact hR.refl w
  | register payload address => exact hR.registerPeer payload address w
  | announceTimer =>
    simp only [Sender.step]
    split
    · exact hR.announce w
    · exact hR.refl w
  | burst =>
    simp only [Sender.step, burst]
    split
    · exact hR.refl w
    · exact hR.trans (hR.same _ _ w) (hR.announce _)
  | start binds => exact hR.startDiscovery binds w
  | stop =>
    simp only [Sender.step, stopDiscovery]
    split
    · exact hR.refl w
    · exact hR.same _ _ w
  | refresh binds =>
    simp only [Sender.step, refresh]
    split
    · exact hR.announce w
    · exact hR.startDiscovery binds w
  | addDeviceAt host port =>
    simp only [Sender.step, addDeviceAt]
    split
    · exact hR.refl w
    · exact hR.trans (hR.same _ _ w) (hR.probeBoth _ _ rfl _)
  | scanSubnet mine => exact hR.scanSubnet mine w
  | cancelScan => exact hR.cancelScan w
  | _ => cases he

end Search

/-! ## Requests that introduce this device -/

/-- The requests that are new introduce this device as it is. -/
structure Introduces (w v : Sender) : Prop where
  settings : v.settings = w.settings
  back : ∀ id r, v.replies id = some r → r.request.slot.isGreeting = true →
    (∃ q, w.replies id = some q ∧ q.request = r.request) ∨
      r.request.content = .introduction w.registerBody

variable {u v w : Sender}

theorem Introduces.same (hsettings : v.settings = w.settings) (hreplies : v.replies = w.replies) :
    Introduces w v := ⟨hsettings, fun _ r hr _ => .inl ⟨r, hreplies ▸ hr, rfl⟩⟩

theorem Introduces.trans (h : Introduces u v) (h' : Introduces v w) : Introduces u w := by
  refine ⟨h'.settings.trans h.settings, fun id r hr hslot => ?_⟩
  rcases h'.back id r hr hslot with ⟨q, hq, heq⟩ | hbody
  · rw [← heq] at hslot ⊢
    exact h.back id q hq hslot
  · unfold registerBody at hbody ⊢
    rw [h.settings] at hbody
    exact .inr hbody

theorem setReply_introduces {id : ReplyId} {q : Option QNetworkReply}
    (h : ∀ r, q = some r → ∃ p, w.replies id = some p ∧ p.request = r.request) :
    Introduces w (w.setReply id q) := by
  refine ⟨rfl, fun j r hr _ => .inl ?_⟩
  by_cases hj : j = id
  · subst hj
    rw [setReply_self] at hr
    exact h r hr
  · rw [setReply_ne hj] at hr
    exact ⟨r, hr, rfl⟩

theorem post_introduces {q : QNetworkRequest}
    (h : q.slot.isGreeting = true → q.content = .introduction w.registerBody) :
    Introduces w (w.post q) := by
  refine ⟨rfl, fun id r hr hslot => ?_⟩
  by_cases hid : id = w.nextReply
  · subst hid
    obtain rfl := Option.some.inj ((post_self _ _).symm.trans hr)
    exact .inr (h hslot)
  · rw [post_ne hid] at hr
    exact .inl ⟨r, hr, rfl⟩

theorem introduces_search : Search Introduces where
  trans := Introduces.trans
  same _ _ _ := .same rfl rfl
  emit _ _ _ := .same rfl rfl
  post _ _ _ h := post_introduces fun _ => h

theorem introduces_frame : Frame Introduces where
  trans := Introduces.trans
  noted h := .same h.settings h.replies
  service _ _ _ _ _ := .same rfl rfl
  abort _ _ _ := setReply_introduces nofun
  post q w h := post_introduces fun hslot => by
    rw [h] at hslot
    cases hslot
  postToPeer content slot w h := by
    have hpost : Introduces w (w.post (requestTo w.service.peer content slot)) :=
      post_introduces fun hslot => by
        change slot.isGreeting = true at hslot
        cases slot <;> cases h <;> cases hslot
    exact hpost.trans (.same rfl rfl)

theorem finish_introduces (id : ReplyId) (r : QNetworkReply) (error : Bool) (status : Nat)
    (errorString : QString) (body : QByteArray) (w : Sender) :
    Introduces (w.setReply id none) (w.finish id r error status errorString body) := by
  cases hslot : r.request.slot.isGreeting with
  | true => exact introduces_search.finish hslot error status errorString body w
  | false =>
    have hother : r.request.slot.isTransfer = true ∨ r.request.slot = .ignored := by
      cases hs : r.request.slot <;> rw [hs] at hslot <;>
        first | exact .inl rfl | exact .inr rfl | cases hslot
    exact introduces_frame.finish hother id error status errorString body w

theorem introduces_step {e : SenderEvent} (he : e.newSettings = none) (w : Sender) :
    Introduces w (w.step e) := by
  by_cases hsearch : e.isDiscovery = true
  · exact introduces_search.step hsearch w
  by_cases hreply : e.isReply = true
  · rcases step_reply hreply w with heq | ⟨id, r, certificate, seen, hr, heq⟩ |
      ⟨id, r, error, status, errorString, body, -, heq⟩
    · rw [heq]
      exact .same rfl rfl
    · have hmark : Introduces w (w.setReply id (some ⟨r.request, true, certificate⟩)) :=
        setReply_introduces fun q hq => ⟨r, hr, by cases hq; rfl⟩
      rw [heq]
      exact hmark.trans (.same rfl rfl)
    · have hgone : Introduces w (w.setReply id none) := setReply_introduces nofun
      rw [heq]
      exact hgone.trans (finish_introduces id r error status errorString body w)
  cases e with
  | uploadProgress id sent =>
    simp only [step]
    split <;> exact .same rfl rfl
  | hold row =>
    simp only [step]
    split <;> exact .same rfl rfl
  | sendFiles device paths =>
    simp only [step]
    split
    · exact introduces_frame.sendFiles device paths w
    · exact .same rfl rfl
  | submitPin pin => exact introduces_frame.submitPin pin w
  | cancel => exact introduces_frame.cancel w
  | settings s => cases he
  | edit e => exact .same rfl rfl
  | files files => exact .same rfl rfl
  | tick ms => exact .same rfl rfl
  | connects => exact absurd rfl hreply
  | answered => exact absurd rfl hreply
  | fails => exact absurd rfl hreply
  | _ => exact absurd rfl hsearch

end Sender

end LocalSend
