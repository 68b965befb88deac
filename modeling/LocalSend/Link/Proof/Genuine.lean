import LocalSend.Core.Proof.Payload
import LocalSend.Link.Proof.Settling
import LocalSend.Send.Proof.Search

/-!
# Who is in the lists of the devices

On a network where every device speaks for itself, a list has no device that is not there: each row
is another device of the network, under the address it has and as it describes itself
(`listed_are_there`). `Genuine` is the invariant: every datagram describes its source, every request
its device, and every answer the device that the request went to.
-/

set_option autoImplicit false

namespace LocalSend

variable {ι : Type}

/-- The device as others read it. -/
def AppSettings.shown (s : AppSettings) : DeviceInfo := DeviceInfo.fromPayload s.self.toRegisterBody

/-- A row is this device at this address. -/
def AppSettings.ShownAt (s : AppSettings) (address : QString) (d : DeviceInfo) : Prop :=
  d = { s.shown with
    address := address, port := d.port, protocol := d.protocol, lastSeen := d.lastSeen }

/-- What a device writes about itself is read as it was written. -/
structure Readable [Qt] (d : DeviceInfo) : Prop where
  announcement : ∀ announcing, ∃ o, Qt.fromJson (Qt.toJson (d.toAnnouncement announcing)) = some o ∧
    DeviceInfo.Carries o d ∧ Sender.announces o = announcing
  body : ∃ o, Qt.fromJson (Qt.toJson d.toRegisterBody) = some o ∧ DeviceInfo.Carries o d

namespace Sender

variable [Qt] {w : Sender}

/-- A row is an old one, or one that the event puts forward. -/
theorem mem_step {e : SenderEvent} {d : DeviceInfo} (h : d ∈ (w.step e).devices.devices) :
    d ∈ w.devices.devices ∨ ∃ known now device, .upsert known now device ∈ w.calls e ∧
      d = { device with lastSeen := now } := by
  rw [step_devices] at h
  rcases calls_cases w e with hcalls | ⟨c, hcalls⟩
  · rw [hcalls] at h
    exact .inl h
  · rw [hcalls] at h ⊢
    rcases DeviceModel.mem_next h with hd | ⟨known, now, device, rfl, hd⟩
    · exact .inl hd
    · exact .inr ⟨known, now, device, List.mem_singleton_self _, hd⟩

theorem nodup_step (e : SenderEvent) (h : w.devices.fingerprints.Nodup) :
    (w.step e).devices.fingerprints.Nodup := by
  rw [step_devices]
  rcases calls_cases w e with hcalls | ⟨c, hcalls⟩
  · rwa [hcalls]
  · rw [hcalls]
    exact DeviceModel.nodup_next h c

omit [Qt] in
theorem mem_offer {device : Option DeviceInfo} {known : KnownDevices} {now : Nat} {d : DeviceInfo}
    (h : DeviceModel.Call.upsert known now d ∈ w.offer device) :
    device = some d ∧ known = w.known ∧ now = w.now := by
  cases device with
  | none => cases h
  | some device =>
    obtain ⟨rfl, rfl, rfl⟩ := DeviceModel.Call.upsert.inj (List.mem_singleton.1 h)
    exact ⟨rfl, rfl, rfl⟩

omit [Qt] in
theorem stranger_some {payload : QJsonObject} {address : QString} {d : DeviceInfo}
    (h : w.stranger payload address = some d) :
    d = announcer payload address ∧ d.isValid = true ∧ d.fingerprint ≠ w.settings.fingerprint := by
  unfold stranger at h
  simp only at h
  split at h
  · cases h
  · rename_i hpeer
    obtain ⟨hvalid, hown⟩ := not_or.1 hpeer
    obtain rfl := Option.some.inj h
    exact ⟨rfl, not_not.1 hvalid, hown⟩

theorem introduced_some {r : QNetworkReply} {error : Bool} {body : QByteArray} {d : DeviceInfo}
    (h : w.introduced r error body = some d) : ∃ o, Qt.fromJson body = some o ∧ d = peerOf r o ∧
      d.fingerprint ≠ w.settings.fingerprint := by
  have hdescribed : w.described r error body = some d := by
    unfold introduced at h
    split at h
    · exact h
    · exact (Option.filter_eq_some_iff.1 h).1
    · exact (Option.filter_eq_some_iff.1 h).1
    · split at h
      · cases h
      · exact (Option.filter_eq_some_iff.1 h).1
    · cases h
  unfold described at hdescribed
  split at hdescribed
  · cases hdescribed
  · cases hbody : Qt.fromJson body with
    | none =>
      rw [hbody] at hdescribed
      cases hdescribed
    | some o =>
      rw [hbody] at hdescribed
      simp only at hdescribed
      split at hdescribed
      · cases hdescribed
      · rename_i hpeer
        obtain rfl := Option.some.inj hdescribed
        exact ⟨o, rfl, rfl, (not_or.1 hpeer).2⟩

/-- The answer to a request of a transfer puts nobody forward. -/
theorem introduced_other {r : QNetworkReply} (h : r.request.slot.isGreeting = false) {error : Bool}
    {body : QByteArray} : w.introduced r error body = none := by
  unfold introduced
  cases hs : r.request.slot <;> rw [hs] at h <;> first | rfl | cases h

end Sender

namespace Lan

variable [DecidableEq ι] [Qt] {site : Site ι} {s : Lan ι} {k : ι} {who : ι → AppSettings}

/-- The devices of a network, with these settings. -/
def among (who : ι → AppSettings) (site : Site ι) : Lib.System (Lan ι) (LanEvent ι) :=
  ⟨fun s => Start s ∧ ∀ k, (s.devices k).settings = who k, next site⟩

/-- Nobody else sends datagrams, registers here or answers our introductions, and no device changes
how it describes itself. -/
def Honest (s : Lan ι) : LanEvent ι → Prop
  | .happens _ (.datagram ..) | .happens _ (.register ..) | .happens _ (.settings _) => False
  | .happens k (.answered id ..) =>
    ∀ r ∈ (s.devices k).replies id, r.request.slot.isGreeting = false
  | _ => True

/-- Another device of the network, as a row of the list of `k`. -/
def Neighbour (who : ι → AppSettings) (site : Site ι) (k : ι) (d : DeviceInfo) : Prop :=
  ∃ j, (who j).ShownAt (site.address j) d ∧ d.fingerprint ≠ (who k).fingerprint

structure Genuine (who : ι → AppSettings) (site : Site ι) (s : Lan ι) : Prop extends Sane s where
  settings : ∀ k, (s.devices k).settings = who k
  distinct : ∀ k, (s.devices k).devices.fingerprints.Nodup
  listed : ∀ k, ∀ d ∈ (s.devices k).devices.devices, Neighbour who site k d
  introduced : ∀ k id r, (s.devices k).replies id = some r → r.request.slot.isGreeting = true →
    r.request.content = .introduction (Qt.toJson (who k).self.toRegisterBody)
  datagram : ∀ payload source dest, Mail.datagram payload source dest ∈ s.mail →
    ∃ announcing, payload = Qt.toJson ((who source).self.toAnnouncement announcing)
  answer : ∀ id body dest, Mail.greeting id body dest ∈ s.mail →
    ∃ j, body = Qt.toJson (who j).self.toRegisterBody ∧
      ∀ r, (s.devices dest).replies id = some r → r.request.host = site.address j

theorem mem_happen_datagram {e : SenderEvent} {payload : QByteArray} {source dest : ι}
    (h : Mail.datagram payload source dest ∈ (happen site k e s).mail) :
    Mail.datagram payload source dest ∈ s.mail ∨ source = k ∧ ∃ announcing,
      payload = Qt.toJson (((s.devices k).step e).settings.self.toAnnouncement announcing) := by
  refine (List.mem_append.1 h).imp_right fun hm => ?_
  obtain ⟨entry, -, hm⟩ := List.mem_flatMap.1 hm
  cases hwhat : entry.what with
  | announced =>
    rw [hwhat] at hm
    obtain ⟨j, -, hj⟩ := List.mem_map.1 hm
    obtain ⟨rfl, rfl, -⟩ := Mail.datagram.inj hj
    exact ⟨rfl, true, rfl⟩
  | answered address fingerprint =>
    rw [hwhat] at hm
    obtain ⟨j, -, hj⟩ := List.mem_map.1 hm
    obtain ⟨rfl, rfl, -⟩ := Mail.datagram.inj hj
    exact ⟨rfl, false, rfl⟩
  | posted q =>
    rw [hwhat] at hm
    cases hm
  | sent q certificate =>
    rw [hwhat] at hm
    cases hm

/-- A device puts only neighbours forward. -/
theorem Genuine.happen (h : Genuine who site s) {e : SenderEvent} (he : e.newSettings = none)
    (hoffers : ∀ known now d, .upsert known now d ∈ (s.devices k).calls e → Neighbour who site k d) :
    Genuine who site (Lan.happen site k e s) where
  toSane := h.toSane.happen site k e
  settings j := by
    rcases eq_or_ne j k with rfl | hj
    · rw [happen_self, Sender.step_settings he]
      exact h.settings j
    · rw [happen_other hj]
      exact h.settings j
  distinct j := by
    rcases eq_or_ne j k with rfl | hj
    · rw [happen_self]
      exact Sender.nodup_step e (h.distinct j)
    · rw [happen_other hj]
      exact h.distinct j
  listed j d hd := by
    rcases eq_or_ne j k with rfl | hj
    · rw [happen_self] at hd
      rcases Sender.mem_step hd with hd | ⟨known, now, device, hcall, rfl⟩
      · exact h.listed j d hd
      · obtain ⟨i, hshown, hother⟩ := hoffers known now device hcall
        refine ⟨i, ?_, hother⟩
        unfold AppSettings.ShownAt at hshown ⊢
        rw [hshown]
    · rw [happen_other hj] at hd
      exact h.listed j d hd
  introduced j id r hr hslot := by
    rcases eq_or_ne j k with rfl | hj
    · rw [happen_self] at hr
      rcases (Sender.introduces_step he (s.devices j)).back id r hr hslot with ⟨q, hq, heq⟩ | hbody
      · rw [← heq] at hslot ⊢
        exact h.introduced j id q hq hslot
      · rw [hbody, Sender.registerBody, h.settings j]
    · rw [happen_other hj] at hr
      exact h.introduced j id r hr hslot
  datagram payload source dest hm := by
    rcases mem_happen_datagram hm with hm | ⟨rfl, announcing, hpayload⟩
    · exact h.datagram payload source dest hm
    · rw [Sender.step_settings he, h.settings source] at hpayload
      exact ⟨announcing, hpayload⟩
  answer id body dest hm := by
    have hm := mem_happen hm
    obtain ⟨j, hbody, hhost⟩ := h.answer id body dest hm
    refine ⟨j, hbody, fun r hr => ?_⟩
    rcases (happen_forward site k e s dest).back id r hr with ⟨q, hq, heq⟩ | hnew
    · rw [← heq]
      exact hhost q hq
    · exact absurd (h.greeting id body dest hm).1 (Nat.not_lt.2 hnew)

omit [DecidableEq ι] in
theorem Genuine.subset (h : Genuine who site s) {mail : List (Mail ι)} (hmail : mail ⊆ s.mail) :
    Genuine who site { s with mail := mail } where
  toSane := h.toSane.subset hmail
  settings := h.settings
  distinct := h.distinct
  listed := h.listed
  introduced := h.introduced
  datagram payload source dest hm := h.datagram payload source dest (hmail hm)
  answer id body dest hm := h.answer id body dest (hmail hm)

/-! ## What a device puts forward -/

omit [DecidableEq ι] [Qt] in
/-- Somebody with the payload of `j` speaks from the address of `j`. -/
theorem neighbour_announcer {w : Sender} {o : QJsonObject} {j : ι} {known : KnownDevices} {now : Nat}
    {d : DeviceInfo} (hw : w.settings = who k) (hcarries : DeviceInfo.Carries o (who j).self)
    (hd : .upsert known now d ∈ w.offer (w.stranger o (site.address j))) :
    Neighbour who site k d := by
  obtain ⟨hstranger, -⟩ := Sender.mem_offer hd
  obtain ⟨rfl, -, hother⟩ := Sender.stranger_some hstranger
  refine ⟨j, ?_, hw ▸ hother⟩
  unfold AppSettings.ShownAt Sender.announcer AppSettings.shown
  rw [hcarries.fromPayload]

omit [DecidableEq ι] in
theorem neighbour_peerOf {w : Sender} {r : QNetworkReply} {body : QByteArray} {o : QJsonObject}
    {j : ι} {known : KnownDevices} {now : Nat} {d : DeviceInfo} (hw : w.settings = who k)
    (hbody : Qt.fromJson body = some o) (hcarries : DeviceInfo.Carries o (who j).self)
    (hhost : r.request.host = site.address j)
    (hd : .upsert known now d ∈ w.offer (w.introduced r false body)) : Neighbour who site k d := by
  obtain ⟨hintroduced, -⟩ := Sender.mem_offer hd
  obtain ⟨o', ho', rfl, hother⟩ := Sender.introduced_some hintroduced
  obtain rfl := Option.some.inj (hbody.symm.trans ho')
  refine ⟨j, ?_, hw ▸ hother⟩
  unfold AppSettings.ShownAt Sender.peerOf AppSettings.shown
  rw [hcarries.fromPayload, hhost]

theorem Genuine.happens (h : Genuine who site s) {e : SenderEvent} (he : Honest s (.happens k e)) :
    Genuine who site (Lan.happen site k e s) := by
  refine h.happen (by cases e <;> first | rfl | exact absurd he not_false) fun known now d hcall => ?_
  cases e with
  | datagram payload address => exact absurd he not_false
  | register payload address => exact absurd he not_false
  | answered id error status errorString body =>
    simp only [Sender.calls] at hcall
    split at hcall
    · rename_i r hr
      split at hcall
      · have hslot : r.request.slot.isGreeting = false := he r hr
        rw [Sender.introduced_other hslot] at hcall
        cases hcall
      · cases hcall
    · cases hcall
  | _ =>
    -- What is left does not put anybody forward.
    simp only [Sender.calls, Sender.pruning] at hcall
    first
    | cases hcall
    | (split at hcall <;> simp at hcall)

theorem Genuine.receive (h : Genuine who site s) (hread : ∀ j, Readable (who j).self) {m : Mail ι}
    (hm : m ∈ s.mail) {u : Lan ι} (hu : Genuine who site u) (hdevices : u.devices = s.devices) :
    Genuine who site (Lan.receive site u m) := by
  cases m with
  | datagram payload source dest =>
    obtain ⟨announcing, rfl⟩ := h.datagram payload source dest hm
    obtain ⟨o, ho, hcarries, -⟩ := (hread source).announcement announcing
    simp only [Lan.receive, ho]
    refine hu.happen rfl fun known now d hcall => ?_
    simp only [Sender.calls] at hcall
    split at hcall
    · exact neighbour_announcer (hu.settings dest) hcarries hcall
    · cases hcall
  | greeting id body dest =>
    obtain ⟨j, rfl, hhost⟩ := h.answer id body dest hm
    obtain ⟨o, ho, hcarries⟩ := (hread j).body
    refine hu.happen rfl fun known now d hcall => ?_
    simp only [Sender.calls] at hcall
    split at hcall
    · rename_i r hr
      rw [hdevices] at hr
      split at hcall
      · exact neighbour_peerOf (hu.settings dest) ho hcarries (hhost r hr) hcall
      · cases hcall
    · cases hcall

theorem Genuine.greet (h : Genuine who site s) (hread : ∀ j, Readable (who j).self) {id : ReplyId}
    {certificate : QByteArray} {reported : Bool} {j : ι} {body : QByteArray}
    (hmeets : meets site k id certificate reported s = some (j, body)) :
    Genuine who site (Lan.greet site k j id certificate reported body s) := by
  obtain ⟨r, hr, -, hslot, -, hcontent, hhost⟩ := meets_some hmeets
  have hbody : body = Qt.toJson (who k).self.toRegisterBody :=
    Content.introduction.inj (hcontent.symm.trans (h.introduced k id r hr hslot))
  obtain ⟨o, ho, hcarries⟩ := (hread k).body
  unfold Lan.greet
  extract_lets u v
  have hu : Genuine who site u := h.happens (e := .connects id certificate reported) trivial
  have hv : Genuine who site v := by
    refine hu.happen rfl fun known now d hcall => ?_
    simp only [Sender.calls, hbody, ho, Option.getD_some] at hcall
    exact neighbour_announcer (hu.settings j) hcarries hcall
  refine ⟨h.toSane.greet hmeets, hv.settings, hv.distinct, hv.listed, hv.introduced, fun payload source dest hm => ?_,
    fun id' body' dest hm => ?_⟩
  · rcases List.mem_append.1 hm with hm | hm
    · exact hv.datagram payload source dest hm
    · cases List.mem_singleton.1 hm
  · rcases List.mem_append.1 hm with hm | hm
    · exact hv.answer id' body' dest hm
    · obtain ⟨rfl, rfl, rfl⟩ := Mail.greeting.inj (List.mem_singleton.1 hm)
      refine ⟨j, by rw [hv.settings j]; rfl, fun q hq => ?_⟩
      have hforward : Sender.Forward (s.devices dest) (v.devices dest) :=
        (happen_forward site dest _ s dest).trans (happen_forward site j _ u dest)
      rcases hforward.back id' q hq with ⟨p, hp, heq⟩ | hnew
      · obtain rfl := Option.some.inj (hr.symm.trans hp)
        rw [← heq]
        exact hhost.symm
      · exact absurd (h.old hr) (Nat.not_lt.2 hnew)

theorem Genuine.next (h : Genuine who site s) (hread : ∀ j, Readable (who j).self) {e : LanEvent ι}
    (he : Honest s e) : Genuine who site (Lan.next site s e) := by
  cases e with
  | happens k e => exact h.happens he
  | delivers n =>
    simp only [Lan.next]
    split
    · rename_i m hm
      exact h.receive hread (List.mem_of_getElem? hm) (h.subset List.eraseIdx_subset) rfl
    · exact h
  | loses n => exact h.subset List.eraseIdx_subset
  | greets k id certificate reported =>
    simp only [Lan.next]
    split
    · exact h.greet hread ‹_›
    · exact h
  | fails k id errorString => exact h.happens (e := .fails id errorString) trivial

omit [DecidableEq ι] [Qt] in
theorem Start.genuine [Qt] (h : Start s) (hsettings : ∀ k, (s.devices k).settings = who k) :
    Genuine who site s where
  toSane := h.sane
  settings := hsettings
  distinct k := by
    rw [(h.devices k).devices]
    exact List.nodup_nil
  listed k d hd := by
    rw [(h.devices k).devices] at hd
    cases hd
  introduced k id r hr := by
    rw [(h.devices k).replies] at hr
    cases hr
  datagram _ _ _ hm := by
    rw [h.mail] at hm
    cases hm
  answer _ _ _ hm := by
    rw [h.mail] at hm
    cases hm

theorem reached_genuine (hread : ∀ j, Readable (who j).self)
    (h : Lib.ReachedBy (among who site) Honest s) : Genuine who site s :=
  h.invariant (fun _ (hs : Start _ ∧ _) => hs.1.genuine hs.2) fun _ _ hs he =>
    hs.next hread he

/-- Whoever is in the list of a device is there: another device of the network, at the address that it
has, as it describes itself. -/
theorem listed_are_there (hread : ∀ j, Readable (who j).self)
    (hown : ∀ j, (who j).shown.fingerprint = (who j).fingerprint)
    (h : Lib.ReachedBy (among who site) Honest s) {d : DeviceInfo}
    (hd : d ∈ (s.devices k).devices.devices) :
    ∃ j ≠ k, (who j).ShownAt (site.address j) d := by
  obtain ⟨j, hshown, hother⟩ := (reached_genuine hread h).listed k d hd
  refine ⟨j, ?_, hshown⟩
  rintro rfl
  rw [hshown] at hother
  exact hother (hown j)

end Lan

namespace Lan

/-- Each of these texts stands for one object. -/
theorem lookup_text {objects : List QJsonObject} (h : (objects.map Ascii.json).Nodup)
    {o : QJsonObject} (ho : o ∈ objects) :
    (objects.map fun o => (Ascii.json o, o)).lookup (Ascii.json o) = some o := by
  induction objects with
  | nil => cases ho
  | cons a objects ih =>
    rw [List.map_cons, List.nodup_cons] at h
    rw [List.map_cons, List.lookup_cons]
    rcases List.mem_cons.1 ho with rfl | ho
    · rw [beq_self_eq_true]
    · have hne : Ascii.json o ≠ Ascii.json a := fun heq =>
        h.1 (heq ▸ List.mem_map_of_mem ho)
      rw [beq_false_of_ne hne]
      exact ih h.2 ho

section

local instance genuineQt : Qt := homeQt

theorem home_read : ∀ o ∈ homeObjects, Qt.fromJson (Qt.toJson o) = some o :=
  fun _ => lookup_text (by decide +kernel)

theorem home_readable (k : Bool) : Readable (homeSettings k).self := by
  have hmem : ∀ announcing, (homeSettings k).self.toAnnouncement announcing ∈ homeObjects := by
    intro announcing
    refine List.mem_flatMap.2 ⟨k, by cases k <;> simp, ?_⟩
    cases announcing <;> simp
  have hbody : (homeSettings k).self.toRegisterBody ∈ homeObjects :=
    List.mem_flatMap.2 ⟨k, by cases k <;> simp, by simp⟩
  exact ⟨fun announcing => ⟨_, home_read _ (hmem announcing), DeviceInfo.carries_toAnnouncement _ _,
    rfl⟩, _, home_read _ hbody, DeviceInfo.carries_toRegisterBody _⟩

/-- Everybody has been heard. -/
def homeMet : Lan Bool := homeOrder.foldl (next home) homeAnnounced

theorem homeAnnounced_honest : Lib.ReachedBy (among homeSettings home) Honest homeAnnounced :=
  Lib.ReachedBy.run (S := among homeSettings home)
    [.happens true (.start true), .happens false (.start true)]
    (.start ⟨⟨fun _ => Sender.fresh_start _ _, rfl⟩, fun _ => rfl⟩) ⟨trivial, trivial, trivial⟩

theorem home_listed : ∃ d ∈ (homeMet.devices true).devices.devices, ∃ j ≠ true,
    (homeSettings j).ShownAt (home.address j) d := by
  have hreached : Lib.ReachedBy (among homeSettings home) Honest homeMet :=
    homeAnnounced_honest.run homeOrder ⟨trivial, trivial, trivial, trivial, trivial, trivial, trivial,
      trivial, trivial, trivial⟩
  have hown : ∀ j, (homeSettings j).shown.fingerprint = (homeSettings j).fingerprint := by
    decide +kernel
  have hone : (homeMet.devices true).devices.devices ≠ [] := by decide +kernel
  obtain ⟨d, hd⟩ := List.exists_mem_of_ne_nil _ hone
  exact ⟨d, hd, listed_are_there home_readable hown hreached hd⟩

end

end Lan

end LocalSend
