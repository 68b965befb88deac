import LocalSend.Link.Proof.Traffic
import LocalSend.Send.Proof.InTurn
import LocalSend.Send.Proof.Spelled
import LocalSend.Send.Proof.Sweep
import Mathlib.Algebra.BigOperators.Group.Finset.Piecewise
import Mathlib.Algebra.BigOperators.Group.List.Lemmas

/-!
# A network calms down

Nothing that the network delivers, loses or connects sets off more than it ends: an announcement is
answered, an answer is not, and a request is answered once. `traffic` counts what may still come of
what is under way, every event of the network makes it less (`traffic_less`), and while it is not
zero there is one that can occur (`Sane.occurs`).
-/

set_option autoImplicit false

namespace LocalSend

variable {ι : Type}

/-- An answer of this device reads back as one: it does not ask for another. -/
def Unasking [Qt] (d : DeviceInfo) : Prop := ∀ o : QJsonObject,
  Qt.fromJson (Qt.toJson (d.toAnnouncement false)) = some o → Sender.announces o = false

/-- What may still come of it: an announcement is heard, answered, and answered by a request. -/
def Mail.weight [Qt] : Mail ι → Nat
  | .datagram payload .. => if (Qt.fromJson payload).any Sender.announces then 5 else 1
  | .greeting .. => 1

/-- Every device is there once, and has an address of its own. -/
structure Site.Proper (site : Site ι) : Prop where
  all : ∀ k, k ∈ site.all
  nodup : site.all.Nodup
  address : Function.Injective site.address

namespace Lan

variable [DecidableEq ι] [Qt] {site : Site ι} {s : Lan ι} {k : ι}

def traffic (site : Site ι) (s : Lan ι) : Nat :=
  (s.mail.map Mail.weight).sum + ∑ k ∈ site.all.toFinset, (s.devices k).underway

/-- What the network does, and not the devices by themselves. -/
def Settles (site : Site ι) (s : Lan ι) : LanEvent ι → Prop
  | .happens .. => False
  | .delivers n | .loses n => n < s.mail.length
  | .greets k id certificate reported => (meets site k id certificate reported s).isSome
  | .fails k id _ => ∃ r ∈ (s.devices k).replies id, r.request.slot.isGreeting = true

instance (site : Site ι) (s : Lan ι) : (e : LanEvent ι) → Decidable (Settles site s e)
  | .happens .. => inferInstanceAs (Decidable False)
  | .delivers _ | .loses _ => inferInstanceAs (Decidable (_ < _))
  | .greets .. => inferInstanceAs (Decidable (_ = true))
  | .fails k id _ => inferInstanceAs (Decidable (∃ r ∈ (s.devices k).replies id, _))

/-! ## What a device does -/

omit [DecidableEq ι] in
theorem flatMap_outgoing (self : DeviceInfo) (l : List LogEntry) :
    (l.flatMap fun entry => outgoing site k self entry.what) =
      ((l.map (·.what)).filter (·.isDatagram)).flatMap (outgoing site k self) := by
  induction l with
  | nil => rfl
  | cons entry l ih =>
    rw [List.flatMap_cons, List.map_cons, List.filter_cons, ih]
    cases entry.what <;> rfl

theorem happen_mail (site : Site ι) {e : SenderEvent} {datagrams : List Outbound}
    (h : Sender.Utters datagrams (s.devices k) ((s.devices k).step e)) :
    (happen site k e s).mail = s.mail ++
      datagrams.flatMap (outgoing site k ((s.devices k).step e).settings.self) := by
  obtain ⟨l, hl, rfl⟩ := h
  unfold happen
  simp only
  rw [hl, List.drop_left, flatMap_outgoing]

theorem happen_self (site : Site ι) (k : ι) (e : SenderEvent) (s : Lan ι) :
    (happen site k e s).devices k = (s.devices k).step e := Function.update_self ..

theorem happen_other {j : ι} (hj : j ≠ k) (site : Site ι) (e : SenderEvent) (s : Lan ι) :
    (happen site k e s).devices j = s.devices j := Function.update_of_ne hj ..

theorem happen_traffic (hsite : site.Proper) {e : SenderEvent} {datagrams : List Outbound}
    (h : Sender.Utters datagrams (s.devices k) ((s.devices k).step e)) :
    traffic site (happen site k e s) + (s.devices k).underway = traffic site s +
      ((s.devices k).step e).underway +
        ((datagrams.flatMap (outgoing site k ((s.devices k).step e).settings.self)).map
          Mail.weight).sum := by
  have hk : k ∈ site.all.toFinset := List.mem_toFinset.2 (hsite.all k)
  have hbefore := Finset.add_sum_erase _ (fun j => (s.devices j).underway) hk
  have hafter := Finset.add_sum_erase _ (fun j => ((happen site k e s).devices j).underway) hk
  have hrest : ∑ j ∈ site.all.toFinset.erase k, ((happen site k e s).devices j).underway =
      ∑ j ∈ site.all.toFinset.erase k, (s.devices j).underway :=
    Finset.sum_congr rfl fun j hj => by rw [happen_other (Finset.ne_of_mem_erase hj)]
  simp only [happen_self] at hafter
  unfold traffic
  rw [happen_mail site h, List.map_append, List.sum_append]
  omega

/-- A device that sends no datagram. -/
theorem happen_traffic_le (hsite : site.Proper) {e : SenderEvent}
    (h : Sender.Utters [] (s.devices k) ((s.devices k).step e)) :
    traffic site (happen site k e s) + (s.devices k).underway =
      traffic site s + ((s.devices k).step e).underway := happen_traffic hsite h

omit [DecidableEq ι] in
/-- At most one device has the address. -/
theorem answered_weight (hsite : site.Proper) {self : DeviceInfo} (hself : Unasking self)
    (address fingerprint : QString) :
    ((outgoing site k self (.answered address fingerprint)).map Mail.weight).sum ≤ 1 := by
  have hone : (site.all.filter fun j => site.address j = address).length ≤ 1 := by
    have hcount := List.nodup_iff_count_le_one.1 (hsite.nodup.map hsite.address) address
    rw [List.count, List.countP_map, List.countP_eq_length_filter] at hcount
    refine Nat.le_trans (Nat.le_of_eq ?_) hcount
    exact congrArg List.length (List.filter_congr fun j _ => by simp [beq_eq_decide])
  have hweight : (Mail.weight ∘ fun j : ι => Mail.datagram (Qt.toJson (self.toAnnouncement false))
      k j) = fun _ => 1 := by
    funext j
    refine if_neg fun hany => ?_
    obtain ⟨o, ho, ha⟩ := (Option.any_eq_true _ _).1 hany
    rw [hself o ho] at ha
    cases ha
  unfold outgoing
  rw [List.map_map, hweight, List.map_const', List.sum_replicate_nat, Nat.mul_one]
  exact hone

omit [DecidableEq ι] in
theorem announced_weight (site : Site ι) (k : ι) (self : DeviceInfo) :
    ((outgoing site k self .announced).map Mail.weight).sum ≤ 5 * site.all.length := by
  -- A copy for each device, and each weighs the same.
  have hweight : (Mail.weight ∘ fun j : ι => Mail.datagram (Qt.toJson (self.toAnnouncement true))
      k j) = fun _ =>
        if (Qt.fromJson (Qt.toJson (self.toAnnouncement true))).any Sender.announces then 5 else 1 :=
    rfl
  unfold outgoing
  rw [List.map_map, hweight, List.map_const', List.sum_replicate_nat, Nat.mul_comm]
  refine Nat.mul_le_mul_right _ ?_
  split <;> omega

/-! ## What is under way is in order -/

/-- The requests of a device are numbered, and the answers that are under way to it are those of
greetings. -/
structure Sane (s : Lan ι) : Prop where
  swept : ∀ k, ∃ t : Sweep, t.sender = s.devices k ∧ t.Inv
  greeting : ∀ id body dest, Mail.greeting id body dest ∈ s.mail →
    id < (s.devices dest).nextReply ∧
      ∀ r, (s.devices dest).replies id = some r → r.request.slot.isGreeting = true

omit [DecidableEq ι] [Qt] in
theorem Sane.old (h : Sane s) {id : ReplyId} {r : QNetworkReply}
    (hr : (s.devices k).replies id = some r) : id < (s.devices k).nextReply := by
  obtain ⟨t, ht, hinv⟩ := h.swept k
  refine Nat.lt_of_not_le fun hle => ?_
  have hfresh := hinv.numbered.fresh id (ht ▸ hle)
  rw [ht, hr] at hfresh
  cases hfresh

omit [DecidableEq ι] [Qt] in
theorem Sane.subset (h : Sane s) {mail : List (Mail ι)} (hmail : mail ⊆ s.mail) :
    Sane { s with mail := mail } :=
  ⟨h.swept, fun id body dest hm => h.greeting id body dest (hmail hm)⟩

theorem happen_forward (site : Site ι) (k : ι) (e : SenderEvent) (s : Lan ι) (j : ι) :
    Sender.Forward (s.devices j) ((happen site k e s).devices j) := by
  rcases eq_or_ne j k with rfl | hj
  · rw [happen_self]
    exact Sender.step_forward e _
  · rw [happen_other hj]
    exact .same rfl rfl

/-- What a device sends is no answer to a request. -/
theorem mem_happen {site : Site ι} {e : SenderEvent} {id : ReplyId} {body : QByteArray} {dest : ι}
    (h : Mail.greeting id body dest ∈ (happen site k e s).mail) :
    Mail.greeting id body dest ∈ s.mail := by
  refine (List.mem_append.1 h).resolve_right fun hm => ?_
  obtain ⟨entry, -, hm⟩ := List.mem_flatMap.1 hm
  cases hwhat : entry.what with
  | announced =>
    rw [hwhat] at hm
    obtain ⟨j, -, hj⟩ := List.mem_map.1 hm
    cases hj
  | answered address fingerprint =>
    rw [hwhat] at hm
    obtain ⟨j, -, hj⟩ := List.mem_map.1 hm
    cases hj
  | posted q =>
    rw [hwhat] at hm
    cases hm
  | sent q certificate =>
    rw [hwhat] at hm
    cases hm

theorem Sane.happen (h : Sane s) (site : Site ι) (k : ι) (e : SenderEvent) :
    Sane (Lan.happen site k e s) where
  swept j := by
    rcases eq_or_ne j k with rfl | hj
    · obtain ⟨t, ht, hinv⟩ := h.swept j
      refine ⟨t.next e, ?_, hinv.step e⟩
      rw [happen_self, ← ht]
      unfold Sweep.next
      split <;> rfl
    · rw [happen_other hj]
      exact h.swept j
  greeting id body dest hm := by
    obtain ⟨hid, hslot⟩ := h.greeting id body dest (mem_happen hm)
    have hforward := happen_forward site k e s dest
    refine ⟨Nat.lt_of_lt_of_le hid hforward.next, fun r hr => ?_⟩
    rcases hforward.back id r hr with ⟨q, hq, heq⟩ | hnew
    · rw [← heq]
      exact hslot q hq
    · exact absurd hid (Nat.not_lt.2 hnew)

omit [DecidableEq ι] in
theorem meets_some {id : ReplyId} {certificate : QByteArray} {reported : Bool} {j : ι}
    {body : QByteArray} (h : meets site k id certificate reported s = some (j, body)) :
    ∃ r, (s.devices k).replies id = some r ∧ r.sent = false ∧ r.request.slot.isGreeting = true ∧
      r.request.connects certificate reported = true ∧ r.request.content = .introduction body ∧
      site.address j = r.request.host := by
  unfold meets at h
  split at h
  · rename_i request c hr
    split at h
    · rename_i body' hcontent
      split at h
      · rename_i hand
        obtain ⟨i, hi, heq⟩ := Option.map_eq_some_iff.1 h
        obtain ⟨rfl, rfl⟩ := Prod.mk.inj heq
        exact ⟨_, hr, rfl, hand.1, hand.2, hcontent, by simpa using List.find?_some hi⟩
      · cases h
    · cases h
  · cases h

theorem Sane.greet (h : Sane s) {id : ReplyId} {certificate : QByteArray} {reported : Bool} {j : ι}
    {body : QByteArray} (hmeets : meets site k id certificate reported s = some (j, body)) :
    Sane (Lan.greet site k j id certificate reported body s) := by
  obtain ⟨r, hr, -, hslot, -⟩ := meets_some hmeets
  unfold Lan.greet
  extract_lets u v
  have hu : Sane u := h.happen site k _
  have hv : Sane v := hu.happen site j _
  refine ⟨hv.swept, fun id' body' dest hm => ?_⟩
  rcases List.mem_append.1 hm with hm | hm
  · exact hv.greeting id' body' dest hm
  · obtain ⟨rfl, -, rfl⟩ := Mail.greeting.inj (List.mem_singleton.1 hm)
    have hforward : Sender.Forward (s.devices dest) (v.devices dest) :=
      (happen_forward site dest _ s dest).trans (happen_forward site j _ u dest)
    refine ⟨Nat.lt_of_lt_of_le (h.old hr) hforward.next, fun q hq => ?_⟩
    rcases hforward.back id' q hq with ⟨p, hp, heq⟩ | hnew
    · obtain rfl := Option.some.inj (hr.symm.trans hp)
      rw [← heq]
      exact hslot
    · exact absurd (h.old hr) (Nat.not_lt.2 hnew)

theorem Sane.next (h : Sane s) (site : Site ι) (e : LanEvent ι) : Sane (Lan.next site s e) := by
  cases e with
  | happens k e => exact h.happen site k e
  | delivers n =>
    simp only [Lan.next]
    split
    · rename_i m hm
      have hrest := h.subset (List.eraseIdx_subset (l := s.mail) (k := n))
      cases m with
      | datagram payload source dest =>
        simp only [receive]
        split
        · exact hrest.happen site dest _
        · exact hrest
      | greeting id body dest => exact hrest.happen site dest _
    · exact h
  | loses n => exact h.subset List.eraseIdx_subset
  | greets k id certificate reported =>
    simp only [Lan.next]
    split
    · exact h.greet ‹_›
    · exact h
  | fails k id errorString => exact h.happen site k _

omit [DecidableEq ι] [Qt] in
theorem Start.sane (h : Start s) : Sane s where
  swept k := ⟨⟨s.devices k, [], [], false, 0⟩, rfl, .start ⟨h.devices k, rfl, rfl, rfl, rfl⟩⟩
  greeting _ _ _ hm := by
    rw [h.mail] at hm
    cases hm

theorem reached_sane (h : Lib.Reached (system site) s) : Sane s :=
  h.invariant (fun _ => Start.sane) fun _ e hs _ => hs.next site e

/-! ## Every event of the network takes something from it -/

omit [DecidableEq ι] in
theorem weight_pos (m : Mail ι) : 0 < m.weight := by
  cases m with
  | datagram payload source dest =>
    simp only [Mail.weight]
    split <;> decide
  | greeting id body dest => exact Nat.one_pos

theorem taken_traffic (site : Site ι) {n : Nat} {m : Mail ι} (hm : s.mail[n]? = some m) :
    traffic site { s with mail := s.mail.eraseIdx n } + m.weight = traffic site s := by
  obtain ⟨hn, rfl⟩ := List.getElem?_eq_some_iff.1 hm
  have hperm := ((List.getElem_cons_eraseIdx_perm hn).map Mail.weight).sum_eq
  rw [List.map_cons, List.sum_cons] at hperm
  simp only [traffic]
  omega

theorem receive_traffic (hsite : site.Proper) (hself : ∀ k, Unasking (s.devices k).settings.self)
    (h : Sane s) {m : Mail ι} (hm : m ∈ s.mail) {u : Lan ι} (hu : u.devices = s.devices) :
    traffic site (receive site u m) < traffic site u + m.weight := by
  have hpos := weight_pos m
  cases m with
  | datagram payload source dest =>
    simp only [receive, Mail.weight]
    cases hpayload : Qt.fromJson payload with
    | none => exact Nat.lt_succ_self _
    | some o =>
      rw [Option.any_some]
      cases ha : Sender.announces o with
      | false =>
        obtain ⟨hutters, hle⟩ :=
          Sender.datagram_eases ha (site.address source) (u.devices dest)
        have htraffic := happen_traffic_le hsite hutters
        simp only [Bool.false_eq_true, if_false]
        omega
      | true =>
        obtain ⟨l, hutters, hle, hl, -⟩ :=
          Sender.datagram_traffic o (site.address source) (u.devices dest)
        have htraffic := happen_traffic hsite hutters
        have hsum : ((l.flatMap (outgoing site dest ((u.devices dest).step
            (.datagram o (site.address source))).settings.self)).map Mail.weight).sum ≤ 1 := by
          rcases hl with rfl | rfl
          · exact Nat.zero_le _
          · rw [List.flatMap_singleton, Sender.step_settings rfl, hu]
            exact answered_weight hsite (hself dest) _ _
        simp only [if_true]
        omega
  | greeting id body dest =>
    obtain ⟨hid, hslot⟩ := h.greeting id body dest hm
    rw [← hu] at hid hslot
    obtain ⟨hutters, hle⟩ := Sender.answered_eases hid hslot false 200 [] body
    have htraffic := happen_traffic_le hsite hutters
    simp only [receive]
    omega

theorem greet_traffic (hsite : site.Proper) (h : Sane s) {id : ReplyId} {certificate : QByteArray}
    {reported : Bool} {j : ι} {body : QByteArray}
    (hmeets : meets site k id certificate reported s = some (j, body)) :
    traffic site (greet site k j id certificate reported body s) < traffic site s := by
  obtain ⟨r, hr, hsent, hslot, hconnects, -⟩ := meets_some hmeets
  unfold greet
  extract_lets u v
  have hconnect : (s.devices k).step (.connects id certificate reported) =
      (s.devices k).connect id r certificate reported := by
    simp only [Sender.step, hr]
  obtain ⟨hutters, hle⟩ := Sender.connect_underway (h.old hr) hr hslot hsent hconnects
  rw [← hconnect] at hutters hle
  have hleft : traffic site u + (s.devices k).underway =
      traffic site s + ((s.devices k).step (.connects id certificate reported)).underway :=
    happen_traffic_le hsite hutters
  have heases := Sender.registerPeer_eases ((Qt.fromJson body).getD []) (site.address k) (u.devices j)
  have hheard : traffic site v + (u.devices j).underway = traffic site u +
      ((u.devices j).step (.register ((Qt.fromJson body).getD []) (site.address k))).underway :=
    happen_traffic_le hsite heases.utters
  have hanswered := heases.underway
  change ((u.devices j).step (.register ((Qt.fromJson body).getD []) (site.address k))).underway ≤ _
    at hanswered
  have hanswer : traffic site { v with mail := v.mail ++
      [.greeting id (Qt.toJson (v.devices j).settings.self.toInfoResponse) k] } =
      traffic site v + 1 := by
    simp only [traffic, List.map_append, List.sum_append, List.map_singleton, List.sum_singleton,
      Mail.weight]
    omega
  omega

theorem traffic_less (hsite : site.Proper) (hself : ∀ k, Unasking (s.devices k).settings.self)
    (h : Sane s) {e : LanEvent ι} (he : Settles site s e) : traffic site (next site s e) < traffic site s := by
  cases e with
  | happens k e => exact absurd he not_false
  | delivers n =>
    have hm : s.mail[n]? = some s.mail[n] := List.getElem?_eq_getElem he
    simp only [next, hm]
    have htaken := taken_traffic site hm
    have hreceived := receive_traffic hsite hself h (List.getElem_mem he)
      (u := { s with mail := s.mail.eraseIdx n }) rfl
    omega
  | loses n =>
    have hm : s.mail[n]? = some s.mail[n] := List.getElem?_eq_getElem he
    have htaken := taken_traffic site hm
    have hpos := weight_pos s.mail[n]
    simp only [next]
    omega
  | greets k id certificate reported =>
    obtain ⟨⟨j, body⟩, hmeets⟩ := Option.isSome_iff_exists.1 he
    simp only [next, hmeets]
    exact greet_traffic hsite h hmeets
  | fails k id errorString =>
    obtain ⟨r, hr, hslot⟩ := he
    rw [Option.mem_def] at hr
    have hfinish : (s.devices k).step (.fails id errorString) =
        (s.devices k).finish id r true 0 errorString [] := by
      simp only [Sender.step, hr]
    obtain ⟨hutters, hle⟩ :=
      Sender.finish_underway (h.old hr) hr hslot true 0 errorString []
    rw [← hfinish] at hutters hle
    have hpos : 0 < r.weight := by
      unfold QNetworkReply.weight
      rw [if_pos hslot]
      split <;> decide
    have htraffic := happen_traffic_le hsite hutters
    simp only [next]
    omega

omit [DecidableEq ι] [Qt] in
/-- A device with anything under way waits for a request of its own. -/
theorem Sane.waits (h : Sane s) (hk : (s.devices k).underway ≠ 0) :
    ∃ id r, (s.devices k).replies id = some r ∧ r.request.slot.isGreeting = true := by
  by_cases hpending : (s.devices k).pending = 0
  · obtain ⟨t, ht, hinv⟩ := h.swept k
    rw [← ht] at hk hpending ⊢
    have hqueue : t.sender.discovery.scanQueue ≠ [] := by
      rintro hnil
      exact hk (by rw [Sender.underway, hpending, hnil]; rfl)
    have hscanning : t.sender.discovery.scanning = true := by
      by_contra hidle
      exact hqueue (hinv.idle (Bool.not_eq_true _ ▸ hidle)).1
    -- A sweep that runs has a probe under way.
    have hcard : 0 < t.sender.scans.card := hinv.card ▸ hinv.running hscanning
    obtain ⟨id, hid⟩ := Finset.card_pos.1 hcard
    obtain ⟨r, hr, hscan⟩ := hinv.numbered.mem_scans.1 hid
    refine ⟨id, r, hr, ?_⟩
    cases hslot : r.request.slot <;> rw [hslot] at hscan <;> first | rfl | cases hscan
  · obtain ⟨id, -, hload⟩ := Finset.exists_ne_zero_of_sum_ne_zero hpending
    cases hr : (s.devices k).replies id with
    | none =>
      rw [hr] at hload
      exact absurd rfl hload
    | some r =>
      refine ⟨id, r, hr, ?_⟩
      by_contra hslot
      rw [hr] at hload
      exact hload (if_neg hslot)

/-- While anything is under way, something can happen to it without a loss. -/
theorem Sane.occurs (h : Sane s) (hs : traffic site s ≠ 0) :
    ∃ e, Settles site s e ∧ ∀ n, e ≠ .loses n := by
  rcases List.eq_nil_or_concat s.mail with hmail | ⟨rest, m, hmail⟩
  · have hsum : ∑ k ∈ site.all.toFinset, (s.devices k).underway ≠ 0 := by
      unfold traffic at hs
      rwa [hmail, List.map_nil, List.sum_nil, Nat.zero_add] at hs
    obtain ⟨k, -, hk⟩ := Finset.exists_ne_zero_of_sum_ne_zero hsum
    obtain ⟨id, r, hr, hslot⟩ := h.waits hk
    exact ⟨.fails k id [], ⟨r, hr, hslot⟩, nofun⟩
  · exact ⟨.delivers 0, by simp [Settles, hmail], nofun⟩

theorem mail_of_traffic (h : traffic site s = 0) : s.mail = [] := by
  cases hmail : s.mail with
  | nil => rfl
  | cons m rest =>
    have hpos := weight_pos m
    rw [traffic, hmail, List.map_cons, List.sum_cons] at h
    omega

/-- Whatever order the network does its work in, it comes to an end: each event of the network takes
something from what is under way, there is one while anything is, and a round of announcements adds
at most so much for each device and each address that was typed in. -/
theorem network_settles (hsite : site.Proper) (hunasking : ∀ d, Unasking d)
    (h : Lib.Reached (system site) s) :
    (∀ events, Lib.Allowed (system site) (Settles site) s events →
      events.length + traffic site (events.foldl (next site) s) ≤ traffic site s) ∧
    (traffic site s ≠ 0 → ∃ e, Settles site s e) ∧
    ∀ k, traffic site (next site s (.happens k .announceTimer)) ≤ traffic site s +
      5 * site.all.length + 6 * (s.devices k).discovery.manualDevices.length := by
  have hsane := reached_sane h
  refine ⟨fun events hok => ?_, fun hs => (hsane.occurs hs).imp fun _ => And.left, fun k => ?_⟩
  · exact Lib.Allowed.length_le (S := system site) (I := Sane) (fun s e hs _ => hs.next site e)
      (fun s e hs he => traffic_less hsite (fun _ => hunasking _) hs he) events hsane hok
  · simp only [next]
    by_cases hrunning : (s.devices k).discovery.running = true
    · obtain ⟨hutters, hle⟩ := Sender.announce_traffic (s.devices k)
      have hstep : (s.devices k).step .announceTimer = (s.devices k).announce := if_pos hrunning
      rw [← hstep] at hutters hle
      have htraffic := happen_traffic hsite hutters
      have hsum := announced_weight site k ((s.devices k).step .announceTimer).settings.self
      split at htraffic
      · rw [List.flatMap_singleton] at htraffic
        omega
      · rw [List.flatMap_nil, List.map_nil, List.sum_nil] at htraffic
        omega
    · have hstep : (s.devices k).step .announceTimer = s.devices k := if_neg hrunning
      have hnone : Sender.Utters [] (s.devices k) ((s.devices k).step .announceTimer) := by
        rw [hstep]
        exact .same rfl
      have htraffic := happen_traffic_le hsite hnone
      rw [hstep] at htraffic
      omega

end Lan

/-! ## A phone and a laptop -/

namespace Lan

/-- The phone is `false`, the laptop `true`. -/
def home : Site Bool where
  all := [false, true]
  address k := str (if k then "10.0.0.3" else "10.0.0.2")

def homeSettings (k : Bool) : AppSettings :=
  if k then { AppSettings.trusting with
    aliasName := str "laptop"
    randomFingerprint := str "AB12" }
  else .trusting

def homeStart : Lan Bool where
  devices k := Sender.fresh (homeSettings k) fun _ => none
  mail := []

/-- What the two of them write about themselves. -/
def homeObjects : List QJsonObject := [false, true].flatMap fun k =>
  [(homeSettings k).self.toAnnouncement true, (homeSettings k).self.toAnnouncement false,
    (homeSettings k).self.toRegisterBody]

theorem home_proper : home.Proper := ⟨by decide, by decide, by decide +kernel⟩

section

local instance homeQt : Qt := Ascii.qt (homeObjects.map fun o => (Ascii.json o, o)) []

theorem home_unasking (d : DeviceInfo) : Unasking d := by
  intro o ho
  obtain ⟨l, l', hl, -⟩ := List.lookup_eq_some_iff.1 ho
  have hmem : (Ascii.json (d.toAnnouncement false), o) ∈
      homeObjects.map fun o => (Ascii.json o, o) := by
    rw [hl]
    exact List.mem_append_right _ List.mem_cons_self
  have htext : (Ascii.json (d.toAnnouncement false)).take 13 = ascii "\x7b\"announce\":f" := rfl
  have hothers : ∀ e ∈ homeObjects.map fun o => (Ascii.json o, o),
      Sender.announces e.2 = false ∨ e.1.take 13 = ascii "\x7b\"announce\":t" := by
    decide +kernel
  refine (hothers _ hmem).resolve_right fun h => ?_
  rw [htext] at h
  exact absurd h (by decide)

/-- Both have just announced themselves. -/
def homeAnnounced : Lan Bool :=
  [.happens true (.start true), .happens false (.start true)].foldl (next home) homeStart

/-- The phone answers the laptop twice, once by a request, and one answer is lost. -/
def homeOrder : List (LanEvent Bool) := [.delivers 0, .delivers 0, .delivers 0, .delivers 0,
  .loses 0, .delivers 0, .greets false 0 [] false, .delivers 0, .fails true 0 []]

theorem homeAnnounced_reached : Lib.Reached (system home) homeAnnounced :=
  Lib.ReachedBy.run_any (S := system home) [.happens true (.start true), .happens false (.start true)]
    (.start ⟨fun _ => Sender.fresh_start _ _, rfl⟩)

theorem home_settles :
    homeOrder.length + traffic home (homeOrder.foldl (next home) homeAnnounced) ≤ 20 := by
  have htraffic : traffic home homeAnnounced = 20 := by decide +kernel
  have hallowed : Lib.Allowed (system home) (Settles home) homeAnnounced homeOrder := by
    decide +kernel
  rw [← htraffic]
  exact (network_settles home_proper home_unasking homeAnnounced_reached).1 homeOrder hallowed

end

end Lan

end LocalSend
