import LocalSend.Qt.Ascii
import LocalSend.Send.Proof.Listed
import LocalSend.Send.Proof.Uploads

/-!
# One row for a key

The list tells rows apart by the fingerprint as it is spelled, and so does `Discovery` when it looks
for its own; `Crypto::equalsFold` says which spellings are of one key. So the list has one row for a
key, and none for our own, as long as a device that appears in it brings a key that is new
(`one_row_iff`).
-/

set_option autoImplicit false

namespace LocalSend

theorem Crypto.equalsFold_comm [Qt] (a b : QString) : equalsFold a b = equalsFold b a := by
  unfold equalsFold equals
  exact BEq.comm

namespace DeviceModel

variable [Qt] {own : QString} {m m' : DeviceModel}

/-- No two rows are of one key, and no row is of the key `own`. -/
def OneRow (own : QString) (m : DeviceModel) : Prop :=
  (m.fingerprints.Pairwise fun a b => Crypto.equalsFold a b = false) ∧
    ∀ a ∈ m.fingerprints, Crypto.equalsFold a own = false

/-- A device that appears brings a new key. -/
def Spelled (own : QString) (m : DeviceModel) : Call → Prop
  | .upsert known _ device => m.Appears known device →
    (∀ a ∈ m.fingerprints, Crypto.equalsFold device.fingerprint a = false) ∧
      Crypto.equalsFold device.fingerprint own = false
  | _ => True

instance Spelled.decidable (own : QString) (m : DeviceModel) :
    (c : Call) → Decidable (m.Spelled own c)
  | .upsert .. => inferInstanceAs (Decidable (_ → _))
  | .remove _ => .isTrue trivial
  | .clear => .isTrue trivial
  | .prune .. => .isTrue trivial

theorem OneRow.subperm (h : m.OneRow own) (hs : m'.fingerprints.Subperm m.fingerprints) :
    m'.OneRow own := by
  obtain ⟨l, hperm, hsub⟩ := hs
  have hl := h.1.sublist hsub
  refine ⟨(hperm.pairwise_iff fun hab => ?_).1 hl, fun a ha => h.2 a (hsub.subset (hperm.mem_iff.2 ha))⟩
  rwa [Crypto.equalsFold_comm]

/-- A call leaves one row for a key if and only if no second one appears. -/
theorem OneRow.next_iff (h : m.OneRow own) (c : Call) : (m.next c).OneRow own ↔ Spelled own m c := by
  cases c with
  | upsert known now device =>
    by_cases happears : m.Appears known device
    · have hperm := happears.perm now
      constructor
      · rintro ⟨hpairs, hown⟩ -
        have hcons := (hperm.pairwise_iff fun {a b} hab => by rwa [Crypto.equalsFold_comm]).1 hpairs
        exact ⟨(List.pairwise_cons.1 hcons).1, hown _ (hperm.mem_iff.2 List.mem_cons_self)⟩
      · intro hspelled
        obtain ⟨hnew, hown⟩ := hspelled happears
        refine ⟨(hperm.symm.pairwise_iff fun {a b} hab => by rwa [Crypto.equalsFold_comm]).1
          (List.pairwise_cons.2 ⟨hnew, h.1⟩), fun a ha => ?_⟩
        rcases List.mem_cons.1 (hperm.mem_iff.1 ha) with rfl | ha
        · exact hown
        · exact h.2 a ha
    · exact iff_of_true (h.subperm (subperm_upsert happears now)) fun ha => absurd ha happears
  | remove fingerprint =>
    exact iff_of_true (h.subperm ((remove_sublist m fingerprint).map _).subperm) trivial
  | clear => exact iff_of_true (h.subperm (List.nil_sublist _).subperm) trivial
  | prune now maxAgeSeconds =>
    exact iff_of_true (h.subperm (List.filter_sublist.map _).subperm) trivial

end DeviceModel

/-- The settings as the user changes them. -/
def SenderEvent.newSettings : SenderEvent → Option AppSettings
  | .settings s => some s
  | _ => none

namespace Sender

variable [Qt] {w : Sender}

/-- The list has one row for a key, and none for the key of this device. -/
def OneRow (w : Sender) : Prop := w.devices.OneRow w.settings.fingerprint

/-- A device that appears in the list brings a new key, and so does a change of our own. -/
def Spelled (w : Sender) (e : SenderEvent) : Prop :=
  (∀ c ∈ w.calls e, DeviceModel.Spelled w.settings.fingerprint w.devices c) ∧
    ∀ s ∈ e.newSettings, ∀ a ∈ w.devices.fingerprints, Crypto.equalsFold a s.fingerprint = false

instance (w : Sender) (e : SenderEvent) : Decidable (w.Spelled e) :=
  inferInstanceAs (Decidable (_ ∧ _))

theorem finish_settings (id : ReplyId) (r : QNetworkReply) (error : Bool) (status : Nat)
    (errorString : QString) (body : QByteArray) (w : Sender) :
    (w.finish id r error status errorString body).settings = w.settings := by
  rcases ht : r.request.slot.isTransfer with - | -
  · exact (finish_aside ht id error status errorString body w).settings
  · exact (apart_frame.finish (.inl ht) id error status errorString body w).settings

/-- Only the user changes the settings. -/
theorem step_settings {e : SenderEvent} (he : e.newSettings = none) (w : Sender) :
    (w.step e).settings = w.settings := by
  by_cases hd : e.isDiscovery = true
  · exact (step_aside hd w).settings
  by_cases hreply : e.isReply = true
  · rcases step_reply hreply w with heq | ⟨id, r, certificate, o, -, heq⟩ | ⟨id, r, _, _, _, _, -, heq⟩
    · rw [heq]
    · rw [heq]
      rfl
    · rw [heq]
      exact finish_settings ..
  cases e with
  | uploadProgress id sent =>
    simp only [step]
    split <;> rfl
  | hold row =>
    simp only [step]
    split <;> rfl
  | sendFiles device paths =>
    simp only [step]
    split
    · exact (apart_frame.sendFiles device paths w).settings
    · rfl
  | submitPin pin => exact (apart_frame.submitPin pin w).settings
  | cancel => exact (apart_frame.cancel w).settings
  | edit e => rfl
  | settings s => cases he
  | files files => rfl
  | tick ms => rfl
  | connects => exact absurd rfl hreply
  | answered => exact absurd rfl hreply
  | fails => exact absurd rfl hreply
  | _ => exact absurd rfl hd

omit [Qt] in
theorem offer_cases (w : Sender) (device : Option DeviceInfo) :
    w.offer device = [] ∨ ∃ c, w.offer device = [c] := by
  cases device with
  | none => exact .inl rfl
  | some device => exact .inr ⟨_, rfl⟩

/-- An event calls the list once at most. -/
theorem calls_cases (w : Sender) (e : SenderEvent) : w.calls e = [] ∨ ∃ c, w.calls e = [c] := by
  have either : ∀ {p : Prop} [Decidable p] {l : List DeviceModel.Call}, (l = [] ∨ ∃ c, l = [c]) →
      (if p then l else []) = [] ∨ ∃ c, (if p then l else []) = [c] := by
    intro p _ l hl
    split
    · exact hl
    · exact .inl rfl
  cases e with
  | datagram payload address => exact either (offer_cases _ _)
  | register payload address => exact offer_cases _ _
  | announceTimer => exact either (.inr ⟨_, rfl⟩)
  | burst =>
    simp only [calls]
    split
    · exact .inl rfl
    · exact .inr ⟨_, rfl⟩
  | start binds => exact either (.inr ⟨_, rfl⟩)
  | stop => exact either (.inr ⟨_, rfl⟩)
  | refresh binds => exact either (.inr ⟨_, rfl⟩)
  | answered id error status errorString body =>
    simp only [calls]
    cases w.replies id with
    | none => exact .inl rfl
    | some r => exact either (offer_cases _ _)
  | _ => exact .inl rfl

theorem OneRow.step_iff (h : w.OneRow) (e : SenderEvent) : (w.step e).OneRow ↔ w.Spelled e := by
  cases hs : e.newSettings with
  | some s =>
    obtain rfl : e = .settings s := by
      cases e <;> cases hs
      rfl
    constructor
    · intro hnext
      refine ⟨fun c hc => absurd hc List.not_mem_nil, ?_⟩
      rintro _ ⟨⟩
      exact hnext.2
    · intro hspelled
      exact ⟨h.1, hspelled.2 s rfl⟩
  | none =>
    unfold OneRow Spelled
    rw [step_settings hs, step_devices, hs]
    simp only [Option.not_mem_none, false_implies, implies_true, and_true]
    rcases calls_cases w e with hcalls | ⟨c, hcalls⟩
    · rw [hcalls]
      exact iff_of_true h fun c hc => absurd hc List.not_mem_nil
    · rw [hcalls, List.forall_mem_singleton]
      exact DeviceModel.OneRow.next_iff h c

/-- The list has one row for a key in every state of a run, and none for our own, if and only if
every device that appears in it brings a new one. -/
theorem one_row_iff {events : List SenderEvent} (hw : w.Start) :
    (∀ before, before <+: events → (before.foldl step w).OneRow) ↔
      Lib.Allowed system Spelled w events := by
  have hstart : w.OneRow := by
    unfold OneRow
    rw [hw.devices]
    exact ⟨.nil, fun a ha => absurd ha List.not_mem_nil⟩
  exact Lib.always_iff_allowed (S := system) (I := OneRow) (fun w e h => h.step_iff e) hstart events

end Sender

namespace Sender

/-- The announcement of a device that spells its fingerprint so. -/
def spelling (fingerprint : String) : QJsonObject := [
  (str "alias", .string (str "TV")),
  (str "fingerprint", .string (str fingerprint))]

section

local instance spellingQt : Qt := Ascii.qt [] []

/-- Two devices announce themselves, the first of them twice. -/
def oneSpelling : List SenderEvent := [
  .start true,
  .datagram (spelling "AB12") (str "10.0.0.3"),
  .datagram (spelling "cd34") (str "10.0.0.4"),
  .datagram (spelling "AB12") (str "10.0.0.5")]

theorem one_row_each : let w := oneSpelling.foldl step (fresh .trusting fun _ => none)
    w.devices.devices.length = 2 ∧ w.OneRow := by
  intro w
  refine ⟨by decide +kernel, ?_⟩
  exact (one_row_iff (fresh_start .trusting fun _ => none)).2 (by decide +kernel) oneSpelling
    (List.prefix_refl _)

/-- A device spells its fingerprint in small letters, and then in capitals. -/
def spelledTwice : Sender := [
  .start true,
  .datagram (spelling "ab12") (str "10.0.0.3"),
  .datagram (spelling "AB12") (str "10.0.0.3")].foldl step (fresh .trusting fun _ => none)

/-- Somebody announces our own fingerprint in capitals. -/
def ownSpelled : Sender := [
  .start true,
  .datagram (spelling "F0") (str "10.0.0.3")].foldl step (fresh .trusting fun _ => none)

/-- The one device gets two rows, and our own key gets one. -/
theorem two_rows :
    (spelledTwice.devices.fingerprints = [str "AB12", str "ab12"] ∧
      Crypto.equalsFold (str "AB12") (str "ab12") = true ∧ ¬ spelledTwice.OneRow) ∧
    (ownSpelled.devices.fingerprints = [str "F0"] ∧ ownSpelled.settings.fingerprint = str "f0" ∧
      ¬ ownSpelled.OneRow) := by
  have hsame : Crypto.equalsFold (str "AB12") (str "ab12") = true := by decide +kernel
  have hfold : Crypto.equalsFold (str "F0") (str "f0") = true := by decide +kernel
  have hrows : spelledTwice.devices.fingerprints = [str "AB12", str "ab12"] := by decide +kernel
  have hrow : ownSpelled.devices.fingerprints = [str "F0"] := by decide +kernel
  have hown : ownSpelled.settings.fingerprint = str "f0" := by decide +kernel
  refine ⟨⟨hrows, hsame, fun h => ?_⟩, hrow, hown, fun h => ?_⟩
  · have hpairs := h.1
    rw [hrows] at hpairs
    have hne := (List.pairwise_cons.1 hpairs).1 _ List.mem_cons_self
    exact Bool.noConfusion (hsame.symm.trans hne)
  · have hne := h.2 (str "F0") (hrow ▸ List.mem_cons_self)
    rw [hown] at hne
    exact Bool.noConfusion (hfold.symm.trans hne)

end

end Sender

end LocalSend
