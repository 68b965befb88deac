import LocalSend.Link.Proof.Genuine

/-!
# A newcomer is met

A device announces itself on a network of devices that speak for themselves, and the network delivers
what is under way in whatever order. When nothing is under way any more, every other device lists the
newcomer, and the newcomer lists every other device (`newcomer_met`); and it does come to that
(`newcomer_meets`).
-/

set_option autoImplicit false

namespace LocalSend

variable {ι : Type}

namespace DeviceModel

variable [Qt] {m : DeviceModel} {known : KnownDevices} {now : Nat} {device : DeviceInfo}

/-- Only who is blocked is taken off the list. -/
theorem stays_upsert {fingerprint : QString} (h : fingerprint ∈ m.fingerprints)
    (hfree : known.isBlocked fingerprint = false) :
    fingerprint ∈ (m.upsert known now device).2.fingerprints := by
  obtain ⟨d, hd, rfl⟩ := List.mem_map.1 h
  by_cases hsame : d.fingerprint = device.fingerprint
  · by_cases hlist : Listable known device
    · have hlists : m.Lists known device := ⟨hlist, .inl (hsame ▸ h)⟩
      exact List.mem_map.2 ⟨_, hlists.mem now, hsame.symm⟩
    · have hbad : ¬ device.isValid ∨ device.address = [] := by
        by_contra hgood
        obtain ⟨hvalid, haddress⟩ := not_or.1 hgood
        exact hlist ⟨not_not.1 hvalid, haddress, hsame ▸ hfree⟩
      rw [show m.upsert known now device = (false, m) from if_pos hbad]
      exact h
  · exact List.mem_map_of_mem (kept_upsert hd hsame)

end DeviceModel

namespace Sender

variable [Qt] {u v w : Sender}

/-- Whoever is listed stays listed, unless blocked. -/
structure Keeps (w v : Sender) : Prop where
  known : v.known = w.known
  socket : v.discovery.socket = w.discovery.socket
  listed : ∀ f ∈ w.devices.fingerprints, w.known.isBlocked f = false →
    f ∈ v.devices.fingerprints

theorem Keeps.refl (w : Sender) : Keeps w w := ⟨rfl, rfl, fun _ hf _ => hf⟩

theorem Keeps.trans (h : Keeps u v) (h' : Keeps v w) : Keeps u w :=
  ⟨h'.known.trans h.known, h'.socket.trans h.socket,
    fun f hf hfree => h'.listed f (h.listed f hf hfree) (h.known ▸ hfree)⟩

/-- An event that only puts devices forward. -/
theorem Keeps.step {e : SenderEvent} (hknown : (w.step e).known = w.known)
    (hsocket : (w.step e).discovery.socket = w.discovery.socket)
    (hcalls : ∀ c ∈ w.calls e, ∃ device, c = .upsert w.known w.now device) : Keeps w (w.step e) := by
  refine ⟨hknown, hsocket, fun f hf hfree => ?_⟩
  rw [step_devices]
  rcases calls_cases w e with hnone | ⟨c, hone⟩
  · rwa [hnone]
  · obtain ⟨device, rfl⟩ := hcalls c (hone ▸ List.mem_singleton_self c)
    rw [hone]
    exact DeviceModel.stays_upsert hf hfree

omit [Qt] in
theorem offer_upsert {device : Option DeviceInfo} {c : DeviceModel.Call} (h : c ∈ w.offer device) :
    ∃ d, c = .upsert w.known w.now d := by
  cases device with
  | none => cases h
  | some d => exact ⟨d, List.mem_singleton.1 h⟩

omit [Qt] in
theorem isCooling_congr (h : Runs w v) (a : QString) : v.isCooling a = w.isCooling a := by
  unfold isCooling
  rw [h.lastResponse, h.now]

/-! ## Datagrams -/

theorem datagram_keeps (payload : QJsonObject) (address : QString) (w : Sender) :
    Keeps w (w.step (.datagram payload address)) := by
  refine .step (step_aside rfl w).known ?_ fun c hc => ?_
  · simp only [Sender.step]
    split
    · exact (handlePayload_runs payload address w).socket
    · rfl
  · simp only [calls] at hc
    split at hc
    · exact offer_upsert hc
    · cases hc

theorem respondTo_cooling {peer : DeviceInfo} {a : QString} (hne : peer.address ≠ a)
    (h : w.isCooling a = false) : (w.respondTo peer).isCooling a = false := by
  unfold respondTo
  split
  · exact h
  · extract_lets table d v u
    have hv : v.isCooling a = false := by
      have hlookup : v.discovery.lastResponse.lookup a = table.lookup a :=
        AList.lookup_insert_ne hne.symm
      unfold isCooling at h ⊢
      rw [hlookup]
      by_cases hfull : w.discovery.lastResponse.entries.length ≥ MaxTrackedResponders
      · rw [show table = ∅ from if_pos hfull]
        rfl
      · rw [show table = w.discovery.lastResponse from if_neg hfull]
        exact h
    have hu : u.isCooling a = false := by
      simp only [u]
      split <;> exact hv
    unfold postRegister
    split <;> exact hu

/-- An answer cools no address, and an announcement no other one. -/
theorem datagram_cooling {payload : QJsonObject} {address a : QString}
    (hne : announces payload = false ∨ address ≠ a) (h : w.isCooling a = false) :
    (w.step (.datagram payload address)).isCooling a = false := by
  simp only [Sender.step]
  split
  · unfold handlePayload
    extract_lets peer peer' v
    have hv : v.isCooling a = false := h
    split
    · exact h
    · split
      · rename_i hannounces
        rcases hne with hsilent | hne
        · exact absurd (hannounces.symm.trans hsilent) Bool.true_eq_false_eq_False.elim
        · exact respondTo_cooling hne hv
      · exact hv
  · exact h

/-- Whoever may be listed is listed by a datagram. -/
theorem datagram_lists {payload : QJsonObject} {address : QString}
    (hsocket : w.discovery.socket = true) (hlists : w.devices.Lists w.known (announcer payload address))
    (hother : (announcer payload address).fingerprint ≠ w.settings.fingerprint) :
    (announcer payload address).fingerprint ∈
      (w.step (.datagram payload address)).devices.fingerprints := by
  have hstranger : w.stranger payload address = some (announcer payload address) :=
    if_neg (not_or.2 ⟨not_not.2 hlists.1.1, hother⟩)
  rw [step_devices, calls, if_pos hsocket, hstranger]
  exact List.mem_map.2 ⟨_, hlists.mem w.now, rfl⟩

/-! ## Requests -/

omit [Qt] in
theorem isTransfer_of_isGreeting {slot : ReplySlot} (h : slot.isGreeting = true) :
    slot.isTransfer = false := by
  cases slot <;> first | rfl | cases h

theorem finish_known {id : ReplyId} {r : QNetworkReply} (h : r.request.slot.isGreeting = true)
    (error : Bool) (status : Nat) (errorString : QString) (body : QByteArray) (w : Sender) :
    (w.finish id r error status errorString body).known = w.known :=
  (finish_aside (isTransfer_of_isGreeting h) id error status errorString body w).known

/-- What becomes of a request that introduced this device. -/
theorem greeting_keeps {id : ReplyId}
    (h : ∀ r, w.replies id = some r → r.request.slot.isGreeting = true) {e : SenderEvent}
    (he : (∃ certificate reported, e = .connects id certificate reported) ∨
      (∃ error status errorString body, e = .answered id error status errorString body) ∨
      ∃ errorString, e = .fails id errorString) : Keeps w (w.step e) := by
  have hknown : ∀ r error status errorString body, w.replies id = some r →
      (w.finish id r error status errorString body).known = w.known :=
    fun r error status errorString body hr => finish_known (h r hr) error status errorString body w
  rcases he with ⟨certificate, reported, rfl⟩ | ⟨error, status, errorString, body, rfl⟩ |
    ⟨errorString, rfl⟩
  · refine .step ?_ (step_runs rfl w).socket fun c hc => by cases hc
    simp only [Sender.step]
    cases hr : w.replies id with
    | none => rfl
    | some r =>
      simp only [connect]
      split
      · rfl
      · split
        · rfl
        · exact hknown r _ _ _ _ hr
  · refine .step ?_ (step_runs rfl w).socket fun c hc => ?_
    · simp only [Sender.step]
      cases hr : w.replies id with
      | none => rfl
      | some r =>
        simp only
        split
        · exact hknown r _ _ _ _ hr
        · rfl
    · simp only [calls] at hc
      split at hc
      · split at hc
        · exact offer_upsert hc
        · cases hc
      · cases hc
  · refine .step ?_ (step_runs rfl w).socket fun c hc => by cases hc
    simp only [Sender.step]
    cases hr : w.replies id with
    | none => rfl
    | some r => exact hknown r _ _ _ _ hr

theorem register_keeps (payload : QJsonObject) (address : QString) (w : Sender) :
    Keeps w (w.step (.register payload address)) :=
  .step (step_aside rfl w).known (step_runs rfl w).socket fun _ hc => offer_upsert hc

end Sender

theorem Readable.unasking [Qt] {d : DeviceInfo} (h : Readable d) : Unasking d := by
  intro o ho
  obtain ⟨o', ho', -, hannounces⟩ := h.announcement false
  rwa [Option.some.inj (ho.symm.trans ho')]

/-- Devices that can find each other: they are at addresses, can be told apart, and there is room for
all of them in a list. -/
structure Site.Findable [Qt] (site : Site ι) (who : ι → AppSettings) : Prop extends site.Proper where
  placed : ∀ j, site.address j ≠ []
  room : site.all.length ≤ MaxDevices
  readable : ∀ j, Readable (who j).self
  own : ∀ j, (who j).shown.fingerprint = (who j).fingerprint
  named : ∀ j, (who j).fingerprint ≠ []
  distinct : Function.Injective fun j => (who j).fingerprint

namespace Lan

variable [DecidableEq ι] [Qt] {site : Site ι} {s : Lan ι} {who : ι → AppSettings} {i j k : ι}

/-- What the network does, and nothing is lost. -/
def Brings (site : Site ι) (s : Lan ι) (e : LanEvent ι) : Prop :=
  Settles site s e ∧ ∀ n, e ≠ .loses n

/-- Every device hears datagrams, and blocks nobody here. -/
structure Open (who : ι → AppSettings) (s : Lan ι) : Prop where
  socket : ∀ i, (s.devices i).discovery.socket = true
  free : ∀ i j, (s.devices i).known.isBlocked (who j).fingerprint = false

/-- The device `j` has a row in the list of `i`. -/
def Lists (who : ι → AppSettings) (s : Lan ι) (i j : ι) : Prop :=
  (who j).fingerprint ∈ (s.devices i).devices.fingerprints

/-- The announcement of `k` to `j`, and the answer of `j`. -/
def announcement (who : ι → AppSettings) (k j : ι) : Mail ι :=
  .datagram (Qt.toJson ((who k).self.toAnnouncement true)) k j

def reply (who : ι → AppSettings) (k j : ι) : Mail ι :=
  .datagram (Qt.toJson ((who j).self.toAnnouncement false)) j k

/-- The newcomer `k` and `j` know each other, or will: the announcement is under way to `j`, who will
answer it, or `j` has heard it and the answer is under way. -/
def Meeting (who : ι → AppSettings) (site : Site ι) (k : ι) (s : Lan ι) (j : ι) : Prop :=
  announcement who k j ∈ s.mail ∧ (s.devices j).isCooling (site.address k) = false ∨
    Lists who s j k ∧ (reply who k j ∈ s.mail ∨ Lists who s k j)

structure Gathering (who : ι → AppSettings) (site : Site ι) (k : ι) (s : Lan ι) : Prop extends
    Genuine who site s, Open who s where
  meeting : ∀ j ≠ k, Meeting who site k s j

/-! ## Who is listed -/

omit [DecidableEq ι] in
theorem Genuine.listed_fingerprint (h : Genuine who site s)
    (hown : ∀ j, (who j).shown.fingerprint = (who j).fingerprint) {f : QString}
    (hf : f ∈ (s.devices i).devices.fingerprints) : ∃ j, (who j).fingerprint = f := by
  obtain ⟨d, hd, rfl⟩ := List.mem_map.1 hf
  obtain ⟨j, hshown, -⟩ := h.listed i d hd
  refine ⟨j, ?_⟩
  rw [hshown, ← hown j]

omit [DecidableEq ι] in
/-- A row for the fingerprint of `j` is `j`, where it is. -/
theorem Genuine.shown (h : Genuine who site s) (hsite : site.Findable who) (hf : Lists who s i j) :
    ∃ d ∈ (s.devices i).devices.devices, (who j).ShownAt (site.address j) d := by
  obtain ⟨d, hd, hfingerprint⟩ := List.mem_map.1 hf
  obtain ⟨j', hshown, -⟩ := h.listed i d hd
  have hsame : (who j').fingerprint = (who j).fingerprint := by
    rw [← hfingerprint, hshown, ← hsite.own j']
  obtain rfl := hsite.distinct hsame
  exact ⟨d, hd, hshown⟩

omit [DecidableEq ι] in
/-- There is room in every list for another device of the network. -/
theorem Genuine.fits (h : Genuine who site s) (hsite : site.Findable who) (i j : ι) :
    Lists who s i j ∨ (s.devices i).devices.devices.length < MaxDevices := by
  by_cases hlisted : Lists who s i j
  · exact .inl hlisted
  · refine .inr ?_
    have hnodup : ((who j).fingerprint :: (s.devices i).devices.fingerprints).Nodup :=
      List.nodup_cons.2 ⟨hlisted, h.distinct i⟩
    have hsubset : (who j).fingerprint :: (s.devices i).devices.fingerprints ⊆
        site.all.map fun j => (who j).fingerprint := by
      intro f hf
      rcases List.mem_cons.1 hf with rfl | hf
      · exact List.mem_map_of_mem (hsite.all j)
      · obtain ⟨j', rfl⟩ := h.listed_fingerprint hsite.own hf
        exact List.mem_map_of_mem (hsite.all j')
    have hle := (List.subperm_of_subset hnodup hsubset).length_le
    have hroom := hsite.room
    rw [List.length_cons, DeviceModel.fingerprints, List.length_map, List.length_map] at hle
    omega

omit [DecidableEq ι] in
/-- A device that is heard is listed. -/
theorem Genuine.hears (h : Genuine who site s) (hsite : site.Findable who) (hopen : Open who s)
    {o : QJsonObject} (hcarries : DeviceInfo.Carries o (who j).self) (hne : i ≠ j) :
    (who j).fingerprint ∈
      ((s.devices i).step (.datagram o (site.address j))).devices.fingerprints := by
  have hannouncer : (Sender.announcer o (site.address j)).fingerprint = (who j).fingerprint :=
    (congrArg DeviceInfo.fingerprint hcarries.fromPayload).trans (hsite.own j)
  have hvalid : (Sender.announcer o (site.address j)).isValid = true := by
    unfold DeviceInfo.isValid
    rw [hannouncer]
    exact decide_eq_true (hsite.named j)
  have hlists : (s.devices i).devices.Lists (s.devices i).known
      (Sender.announcer o (site.address j)) := by
    refine ⟨⟨hvalid, hsite.placed j, ?_⟩, ?_⟩
    · rw [hannouncer]
      exact hopen.free i j
    · rw [hannouncer]
      exact h.fits hsite i j
  rw [← hannouncer]
  refine Sender.datagram_lists (hopen.socket i) hlists ?_
  rw [hannouncer, h.settings i]
  exact fun heq => hne (hsite.distinct heq.symm)

/-! ## What the network does -/

theorem mail_happen (site : Site ι) (k : ι) (e : SenderEvent) (s : Lan ι) :
    s.mail ⊆ (happen site k e s).mail := List.subset_append_left _ _

theorem happen_keeps (site : Site ι) {e : SenderEvent}
    (h : Sender.Keeps (s.devices k) ((s.devices k).step e)) (i : ι) :
    Sender.Keeps (s.devices i) ((happen site k e s).devices i) := by
  rcases eq_or_ne i k with rfl | hi
  · rwa [happen_self]
  · rw [happen_other hi]
    exact .refl _

theorem happen_cooling (site : Site ι) {e : SenderEvent} (he : e.isTurn = false) (i : ι)
    (a : QString) : ((happen site k e s).devices i).isCooling a = (s.devices i).isCooling a := by
  rcases eq_or_ne i k with rfl | hi
  · rw [happen_self]
    exact Sender.isCooling_congr (Sender.step_runs he _) a
  · rw [happen_other hi]

omit [DecidableEq ι] in
theorem Open.keeps {u : Lan ι} (h : Open who s) (hu : ∀ i, Sender.Keeps (s.devices i) (u.devices i)) :
    Open who u where
  socket i := (hu i).socket.trans (h.socket i)
  free i j := by
    rw [(hu i).known]
    exact h.free i j

omit [DecidableEq ι] in
theorem Lists.keeps {u : Lan ι} (h : Lists who s i j) (hopen : Open who s)
    (hu : ∀ i, Sender.Keeps (s.devices i) (u.devices i)) : Lists who u i j :=
  (hu i).listed _ h (hopen.free i j)

omit [DecidableEq ι] in
/-- Nothing of the meeting is lost while no datagram arrives. -/
theorem Meeting.keeps {u : Lan ι} (h : Meeting who site k s j) (hopen : Open who s)
    (hu : ∀ i, Sender.Keeps (s.devices i) (u.devices i)) (hmail : s.mail ⊆ u.mail)
    (hcooling : ∀ a, (u.devices j).isCooling a = (s.devices j).isCooling a) :
    Meeting who site k u j := by
  rcases h with ⟨hm, hcool⟩ | ⟨hlists, hrest⟩
  · exact .inl ⟨hmail hm, (hcooling _).trans hcool⟩
  · refine .inr ⟨hlists.keeps hopen hu, hrest.imp (fun hm => hmail hm) fun hl => ?_⟩
    exact hl.keeps hopen hu

theorem Gathering.fails (h : Gathering who site k s) (hsite : site.Findable who) {id : ReplyId}
    {errorString : QString} (he : Settles site s (.fails i id errorString)) :
    Gathering who site k (happen site i (.fails id errorString) s) := by
  obtain ⟨r, hr, hslot⟩ := he
  have hkeeps := happen_keeps site (Sender.greeting_keeps (fun q hq => by
    obtain rfl := Option.some.inj (hr.symm.trans hq)
    exact hslot) (.inr (.inr ⟨errorString, rfl⟩)))
  refine ⟨h.toGenuine.next hsite.readable (e := .fails i id errorString) trivial,
    h.toOpen.keeps hkeeps, fun j hj => ?_⟩
  exact (h.meeting j hj).keeps h.toOpen hkeeps (mail_happen site i _ s)
    fun a => happen_cooling site rfl j a

theorem Gathering.greet (h : Gathering who site k s) (hsite : site.Findable who) {id : ReplyId}
    {certificate : QByteArray} {reported : Bool} {body : QByteArray}
    (hmeets : meets site i id certificate reported s = some (j, body)) :
    Gathering who site k (Lan.greet site i j id certificate reported body s) := by
  obtain ⟨r, hr, -, hslot, -⟩ := meets_some hmeets
  suffices hrest : Open who (Lan.greet site i j id certificate reported body s) ∧
      ∀ l ≠ k, Meeting who site k (Lan.greet site i j id certificate reported body s) l from
    ⟨h.toGenuine.greet hsite.readable hmeets, hrest.1, hrest.2⟩
  unfold Lan.greet
  extract_lets u v
  have hu : ∀ i, Sender.Keeps (s.devices i) (u.devices i) :=
    happen_keeps site (Sender.greeting_keeps (fun q hq => by
      obtain rfl := Option.some.inj (hr.symm.trans hq)
      exact hslot) (.inl ⟨certificate, reported, rfl⟩))
  have hv : ∀ i, Sender.Keeps (u.devices i) (v.devices i) :=
    happen_keeps site (Sender.register_keeps _ _ _)
  have hkeeps := fun i => (hu i).trans (hv i)
  refine ⟨h.toOpen.keeps hkeeps, fun l hl => ?_⟩
  refine (h.meeting l hl).keeps h.toOpen hkeeps (fun m hm => ?_) fun a => ?_
  · exact List.mem_append_left _ (mail_happen site j _ u (mail_happen site i _ s hm))
  · exact (happen_cooling site rfl l a).trans (happen_cooling site rfl l a)

omit [DecidableEq ι] [Qt] in
/-- What else is under way stays so. -/
theorem mem_eraseIdx {n : Nat} {m m' : Mail ι} (hm : s.mail[n]? = some m) (hm' : m' ∈ s.mail)
    (hne : m' ≠ m) : m' ∈ s.mail.eraseIdx n := by
  obtain ⟨i, hi⟩ := List.mem_iff_getElem?.1 hm'
  refine List.mem_eraseIdx_iff_getElem?.2 ⟨i, fun heq => hne ?_, hi⟩
  subst heq
  exact Option.some.inj (hi.symm.trans hm)

/-- The answer to a request arrives. -/
theorem Gathering.answered (h : Gathering who site k s) (hsite : site.Findable who) {n : Nat}
    {id : ReplyId} {body : QByteArray} (hm : s.mail[n]? = some (.greeting id body i)) :
    Gathering who site k
      (happen site i (.answered id false 200 [] body) { s with mail := s.mail.eraseIdx n }) := by
  have hmem := List.mem_of_getElem? hm
  have hgenuine : Genuine who site
      (happen site i (.answered id false 200 [] body) { s with mail := s.mail.eraseIdx n }) :=
    h.toGenuine.receive hsite.readable hmem (h.toGenuine.subset List.eraseIdx_subset) rfl
  have hkeeps := happen_keeps (s := { s with mail := s.mail.eraseIdx n }) site
    (Sender.greeting_keeps (h.greeting id body i hmem).2
      (.inr (.inl ⟨false, 200, [], body, rfl⟩)))
  refine ⟨hgenuine, h.toOpen.keeps hkeeps, fun j hj => ?_⟩
  have hrest : Meeting who site k { s with mail := s.mail.eraseIdx n } j :=
    (h.meeting j hj).imp (fun ⟨hd, hcool⟩ => ⟨mem_eraseIdx hm hd nofun, hcool⟩)
      fun ⟨hlists, hrest⟩ => ⟨hlists, hrest.imp_left fun hd => mem_eraseIdx hm hd nofun⟩
  exact hrest.keeps ⟨h.socket, h.free⟩ hkeeps (mail_happen site i _ _)
    fun a => happen_cooling site rfl j a

/-- The newcomer is heard, listed and answered. -/
theorem Gathering.introduced_to (h : Gathering who site k s) (hsite : site.Findable who)
    (mail : List (Mail ι)) {o : QJsonObject} (hcarries : DeviceInfo.Carries o (who k).self)
    (hannounces : Sender.announces o = true) (hj : j ≠ k)
    (hcool : (s.devices j).isCooling (site.address k) = false) :
    let v := happen site j (.datagram o (site.address k)) { s with mail := mail }
    Lists who v j k ∧ reply who k j ∈ v.mail := by
  intro v
  constructor
  · unfold Lists
    rw [happen_self]
    exact h.hears hsite h.toOpen hcarries hj
  · obtain ⟨l, hutters, -, hl, hanswers⟩ :=
      Sender.datagram_traffic o (site.address k) (s.devices j)
    have hannouncer : (Sender.announcer o (site.address k)).fingerprint = (who k).fingerprint :=
      (congrArg DeviceInfo.fingerprint hcarries.fromPayload).trans (hsite.own k)
    have hasked : (s.devices j).Announces o (site.address k) := by
      refine ⟨?_, ?_, hannounces, hcool⟩
      · unfold DeviceInfo.isValid
        rw [hannouncer]
        exact decide_eq_true (hsite.named k)
      · rw [hannouncer, h.settings j]
        exact fun heq => hj (hsite.distinct heq.symm)
    obtain rfl := hl.resolve_left (hanswers (h.socket j) hasked)
    have hmail := happen_mail site (s := { s with mail := mail }) hutters
    rw [List.flatMap_singleton, Sender.step_settings rfl, h.settings j] at hmail
    rw [show v.mail = _ from hmail]
    refine List.mem_append_right _ (List.mem_map.2 ⟨k, ?_, rfl⟩)
    exact List.mem_filter.2 ⟨hsite.all k, decide_eq_true rfl⟩

/-- A datagram arrives. -/
theorem Gathering.heard (h : Gathering who site k s) (hsite : site.Findable who) {n : Nat}
    {payload : QByteArray} {source dest : ι}
    (hm : s.mail[n]? = some (.datagram payload source dest)) :
    Gathering who site k
      (receive site { s with mail := s.mail.eraseIdx n } (.datagram payload source dest)) := by
  have hmem := List.mem_of_getElem? hm
  have hgenuine := h.toGenuine.receive hsite.readable hmem
    (h.toGenuine.subset (List.eraseIdx_subset (l := s.mail) (k := n))) rfl
  obtain ⟨announcing, rfl⟩ := h.datagram payload source dest hmem
  obtain ⟨o, ho, hcarries, hannouncing⟩ := (hsite.readable source).announcement announcing
  simp only [receive, ho] at hgenuine ⊢
  have hkeeps := happen_keeps (s := { s with mail := s.mail.eraseIdx n }) site
    (Sender.datagram_keeps o (site.address source) (s.devices dest))
  have hmail := mail_happen site dest (.datagram o (site.address source))
    { s with mail := s.mail.eraseIdx n }
  refine ⟨hgenuine, h.toOpen.keeps hkeeps, fun j hj => ?_⟩
  rcases h.meeting j hj with ⟨hd, hcool⟩ | ⟨hlists, hrest⟩
  · by_cases heq : announcement who k j =
      .datagram (Qt.toJson ((who source).self.toAnnouncement announcing)) source dest
    · -- The announcement itself: `j` answers it.
      obtain ⟨hpayload, rfl, rfl⟩ := Mail.datagram.inj heq
      obtain ⟨o', ho', -, hannounces⟩ := (hsite.readable k).announcement true
      rw [hpayload, ho] at ho'
      obtain rfl := Option.some.inj ho'
      obtain ⟨hlists, hreply⟩ :=
        h.introduced_to hsite (s.mail.eraseIdx n) hcarries hannounces hj hcool
      exact .inr ⟨hlists, .inl hreply⟩
    · refine .inl ⟨hmail (mem_eraseIdx hm hd heq), ?_⟩
      rcases eq_or_ne j dest with rfl | hdest
      · rw [happen_self]
        refine Sender.datagram_cooling ?_ hcool
        rcases eq_or_ne source k with rfl | hsource
        · refine .inl ?_
          rw [hannouncing]
          by_contra hasks
          rw [Bool.not_eq_false] at hasks
          exact heq (by rw [hasks]; rfl)
        · exact .inr fun ha => hsource (hsite.address ha)
      · rw [happen_other hdest]
        exact hcool
  · refine .inr ⟨hlists.keeps h.toOpen hkeeps, ?_⟩
    rcases hrest with hd | hl
    · by_cases heq : reply who k j =
        .datagram (Qt.toJson ((who source).self.toAnnouncement announcing)) source dest
      · obtain ⟨-, rfl, rfl⟩ := Mail.datagram.inj heq
        refine .inr ?_
        unfold Lists
        rw [happen_self]
        exact h.hears hsite h.toOpen hcarries (Ne.symm hj)
      · exact .inl (hmail (mem_eraseIdx hm hd heq))
    · exact .inr (hl.keeps h.toOpen hkeeps)

theorem Gathering.next (h : Gathering who site k s) (hsite : site.Findable who) {e : LanEvent ι}
    (he : Brings site s e) : Gathering who site k (Lan.next site s e) := by
  obtain ⟨hsettles, hkept⟩ := he
  cases e with
  | happens i e => exact absurd hsettles not_false
  | delivers n =>
    have hm : s.mail[n]? = some s.mail[n] := List.getElem?_eq_getElem hsettles
    simp only [Lan.next]
    rw [hm]
    cases hmail : s.mail[n] with
    | datagram payload source dest => exact h.heard hsite (hm.trans (congrArg some hmail))
    | greeting id body dest => exact h.answered hsite (hm.trans (congrArg some hmail))
  | loses n => exact absurd rfl (hkept n)
  | greets i id certificate reported =>
    obtain ⟨⟨j, body⟩, hmeets⟩ := Option.isSome_iff_exists.1 hsettles
    simp only [Lan.next, hmeets]
    exact h.greet hsite hmeets
  | fails i id errorString => exact h.fails hsite hsettles

/-- The announcement is on its way to everybody. -/
theorem Genuine.gathering (h : Genuine who site s) (hsite : site.Findable who) (hopen : Open who s)
    (hrunning : (s.devices k).discovery.running = true)
    (hcool : ∀ j ≠ k, (s.devices j).isCooling (site.address k) = false) :
    Gathering who site k (Lan.next site s (.happens k .announceTimer)) := by
  have hgenuine := h.next hsite.readable (e := .happens k .announceTimer) trivial
  have hstep : (s.devices k).step .announceTimer = (s.devices k).announce := if_pos hrunning
  obtain ⟨hutters, -⟩ := Sender.announce_traffic (s.devices k)
  rw [if_pos (hopen.socket k), ← hstep] at hutters
  have hmail := happen_mail site hutters
  rw [List.flatMap_singleton, Sender.step_settings rfl, h.settings k] at hmail
  have hsame : ∀ i, ((Lan.happen site k .announceTimer s).devices i).known = (s.devices i).known ∧
      ((Lan.happen site k .announceTimer s).devices i).discovery.socket =
        (s.devices i).discovery.socket := by
    intro i
    rcases eq_or_ne i k with rfl | hi
    · rw [happen_self]
      exact ⟨(Sender.step_aside rfl _).known, (Sender.step_runs rfl _).socket⟩
    · rw [happen_other hi]
      exact ⟨rfl, rfl⟩
  refine ⟨hgenuine, ⟨fun i => (hsame i).2.trans (hopen.socket i), fun i j => ?_⟩, fun j hj => ?_⟩
  · simp only [Lan.next]
    rw [(hsame i).1]
    exact hopen.free i j
  · refine .inl ⟨?_, ?_⟩
    · simp only [Lan.next]
      rw [hmail]
      exact List.mem_append_right _ (List.mem_map.2 ⟨j, hsite.all j, rfl⟩)
    · simp only [Lan.next]
      rw [happen_other hj]
      exact hcool j hj

/-- It comes to an end, whatever is taken first. -/
theorem Gathering.ends (hsite : site.Findable who) (n : Nat) (h : Gathering who site k s)
    (hn : traffic site s ≤ n) : ∃ events, Lib.Allowed (among who site) (Brings site) s events ∧
      (events.foldl (Lan.next site) s).mail = [] := by
  induction n generalizing s with
  | zero => exact ⟨[], trivial, mail_of_traffic (Nat.le_zero.1 hn)⟩
  | succ n ih =>
    by_cases hs : traffic site s = 0
    · exact ⟨[], trivial, mail_of_traffic hs⟩
    · obtain ⟨e, he⟩ := h.occurs hs
      have hself : ∀ i, Unasking (s.devices i).settings.self := fun i => by
        rw [h.settings i]
        exact (hsite.readable i).unasking
      have hless := traffic_less hsite.toProper hself h.toSane he.1
      obtain ⟨events, hok, hend⟩ := ih (h.next hsite he) (by omega)
      exact ⟨e :: events, ⟨he, hok⟩, hend⟩

/-- A device announces itself, and nothing is lost: whatever the order, when nothing is under way any
more it is in the list of every other device, and every other device in its own. -/
theorem newcomer_met (hsite : site.Findable who) (h : Lib.ReachedBy (among who site) Honest s)
    (hopen : Open who s) (hrunning : (s.devices k).discovery.running = true)
    (hcool : ∀ j ≠ k, (s.devices j).isCooling (site.address k) = false) :
    let u := next site s (.happens k .announceTimer)
    (∀ events, Lib.Allowed (among who site) (Brings site) u events →
      (events.foldl (next site) u).mail = [] → ∀ j ≠ k,
        (∃ d ∈ ((events.foldl (next site) u).devices j).devices.devices,
          (who k).ShownAt (site.address k) d) ∧
        ∃ d ∈ ((events.foldl (next site) u).devices k).devices.devices,
          (who j).ShownAt (site.address j) d) ∧
    ∃ events, Lib.Allowed (among who site) (Brings site) u events ∧
      (events.foldl (next site) u).mail = [] := by
  intro u
  have hu : Gathering who site k u :=
    (reached_genuine hsite.readable h).gathering hsite hopen hrunning hcool
  refine ⟨fun events hok hend j hj => ?_, hu.ends hsite _ (Nat.le_refl _)⟩
  have hfinal : Gathering who site k (events.foldl (next site) u) :=
    Lib.Allowed.invariant (S := among who site) (fun s e hs he => hs.next hsite he) events hu hok
  have hmeeting := hfinal.meeting j hj
  unfold Meeting at hmeeting
  rw [hend] at hmeeting
  obtain ⟨hthere, hhere⟩ := hmeeting.resolve_left fun hm => absurd hm.1 List.not_mem_nil
  have hhere := hhere.resolve_left List.not_mem_nil
  exact ⟨hfinal.shown hsite hthere, hfinal.shown hsite hhere⟩

end Lan

namespace Lan

section

local instance newcomerQt : Qt := homeQt

theorem home_findable : home.Findable homeSettings where
  toProper := home_proper
  placed := by decide +kernel
  room := by decide
  readable := home_readable
  own := by decide +kernel
  named := by decide +kernel
  distinct := by decide +kernel

/-- The phone announces itself once more, and the laptop gets to know it. -/
theorem home_meets : ∃ events : List (LanEvent Bool),
    let u := events.foldl (next home) (next home homeAnnounced (.happens false .announceTimer))
    u.mail = [] ∧
      (∃ d ∈ (u.devices true).devices.devices,
        (homeSettings false).ShownAt (home.address false) d) ∧
      ∃ d ∈ (u.devices false).devices.devices,
        (homeSettings true).ShownAt (home.address true) d := by
  have hopen : Open homeSettings homeAnnounced := ⟨by decide +kernel, by decide +kernel⟩
  obtain ⟨hmet, events, hok, hend⟩ := newcomer_met home_findable homeAnnounced_honest hopen
    (k := false) (by decide +kernel) (by decide +kernel)
  exact ⟨events, hend, hmet events hok hend true (by decide)⟩

end

end Lan

end LocalSend
