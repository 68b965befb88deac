import LocalSend.Send.Proof.March

/-!
# What a step does to a transfer

`step_turn` is the inversion of a step while something is being sent, and `idle_turn` while nothing
is: the only places where the events and the functions of `SendService` are gone through.
-/

set_option autoImplicit false

namespace LocalSend

/-- The user enters a PIN. -/
def SenderEvent.isPin : SenderEvent → Bool
  | .submitPin pin => pin ≠ []
  | _ => false

namespace Sender

variable {w v : Sender}

section
variable [Qt]

/-- The tokens that the receiver gave, with what it answers now. -/
def granting (w : Sender) (granted : QJsonObject) : SenderEvent → QJsonObject
  | .answered id _ 200 _ body =>
    match w.replies id with
    | some ⟨⟨_, _, _, _, _, .prepared⟩, true, _⟩ => grants body
    | _ => granted
  | _ => granted

/-- The file list is answered, and nothing is left to be sent. -/
def Declines (w : Sender) : SenderEvent → Prop
  | .answered id _ status _ body => (∃ r, w.replies id = some r ∧ r.sent = true ∧
    r.request.slot = .prepared) ∧ w.TakesNothing status body
  | _ => False

/-- What a step does while something is being sent. -/
inductive Turn (granted granted' : QJsonObject) (w : Sender) (e : SenderEvent) (v : Sender) : Prop
  | holds : v.service = w.service → v.signals = w.signals → begun v.log = begun w.log →
    (Asks w → Asks v) → (Climbs (tokenFor granted) w → Climbs (tokenFor granted') v) →
      ¬ w.Declines e → Turn granted granted' w e v
  | asksAgain : e.isPin = true → v.signals = w.signals → begun v.log = begun w.log → Asks v →
    ¬ w.Declines e → Turn granted granted' w e v
  | prompts (retry : Bool) : v.signals = w.signals ++ [.pinRequired retry] →
    begun v.log = begun w.log → v.service.reply = none → Asks v → ¬ w.Declines e →
      Turn granted granted' w e v
  | goes : w.service.reply ≠ none → Goes w v → Climbs (tokenFor granted') v → ¬ w.Declines e →
    Turn granted granted' w e v
  | ends : Ends w v → (Closed v ↔ ¬ w.Declines e) →
    (w.GoesOn e → Served (tokenFor granted') v) → Turn granted granted' w e v

/-! ## The end of a request -/

variable {granted granted' : QJsonObject} {e : SenderEvent} {id : ReplyId} {r : QNetworkReply}

omit [Qt] in
/-- The request whose end is waited for tells what the transfer does. -/
theorem Tidy.slot (ht : w.Tidy) (hphase : Asks w ∨ Climbs (tokenFor granted) w)
    (hr : w.replies id = some r) (htransfer : r.request.slot.isTransfer = true) :
    r.request.slot = .prepared ∧ Asks w ∨
      (∃ row, r.request.slot = .uploaded row) ∧ Climbs (tokenFor granted) w := by
  rcases hphase with h | h
  · cases hs : r.request.slot with
    | prepared => exact .inl ⟨rfl, h⟩
    | uploaded row => exact absurd hs (h.slots id r row hr)
    | _ =>
      rw [hs] at htransfer
      cases htransfer
  · obtain ⟨j, q, row, hq, hs⟩ := ht.file h.file
    have hreply := (ht.waited j q hq (isTransfer_of_uploaded hs)).1
    obtain rfl := Option.some.inj (hreply.symm.trans (ht.waited id r hr htransfer).1)
    obtain rfl := Option.some.inj (hr.symm.trans hq)
    exact .inr ⟨⟨row, hs⟩, h⟩

omit [Qt] in
theorem Asks.gone (h : Asks w) (id : ReplyId) : Asks (w.setReply id none) := by
  refine ⟨h.busy, h.files, h.rows, h.uploads, h.session, h.file, fun j q row hq => ?_⟩
  by_cases hj : j = id
  · subst hj
    rw [setReply_self] at hq
    cases hq
  · rw [setReply_ne hj] at hq
    exact h.slots j q row hq

omit [Qt] in
theorem Asks.aside {A : Outbound → Prop} (h : Asks w) (hv : Aside A w v)
    (hA : ∀ q, A (.posted q) → q.slot.isTransfer = false) : Asks v := by
  obtain ⟨huploads, -⟩ := hv.counts hA
  refine ⟨by rw [hv.service]; exact h.busy, by rw [hv.transfer]; exact h.files,
    by rw [hv.transfer]; exact h.rows, huploads.trans h.uploads, by rw [hv.service]; exact h.session,
    by rw [hv.service]; exact h.file, fun id r row hr hs => ?_⟩
  rcases hv.replies id r hr with ⟨q, hq, heq⟩ | hposted
  · exact h.slots id q row hq (heq ▸ hs)
  · cases (hA _ hposted).symm.trans (isTransfer_of_uploaded hs)

omit [Qt] in
theorem Climbs.aside {A : Outbound → Prop} {grant : QString → QString} (h : Climbs grant w)
    (hv : Aside A w v) (hA : ∀ q, A (.posted q) → q.slot.isTransfer = false) : Climbs grant v := by
  obtain ⟨huploads, -⟩ := hv.counts hA
  refine ⟨by rw [hv.service]; exact h.busy, by rw [hv.service]; exact h.file, ?_⟩
  rw [hv.service, hv.transfer, huploads]
  exact h.march

/-- Something else goes on. -/
theorem Turn.aside {A : Outbound → Prop} (hv : Aside A w v)
    (hA : ∀ q, A (.posted q) → q.slot.isTransfer = false) (hd : ¬ w.Declines e) :
    Turn granted granted w e v :=
  .holds hv.service hv.signals (hv.counts hA).2 (fun h => h.aside hv hA) (fun h => h.aside hv hA) hd

/-- A request is finished: what the event says of it, and what becomes of the transfer. -/
theorem finish_turn (ht : w.Tidy) (hphase : Asks w ∨ Climbs (tokenFor granted) w)
    (hr : w.replies id = some r) (error : Bool) (status : Nat) (errorString : QString)
    (body : QByteArray) (hnew : r.request.slot = .prepared → status = 200 → granted' = grants body)
    (hold : r.request.slot ≠ .prepared → granted' = granted)
    (hgoes : w.GoesOn e → r.request.slot = .prepared ∧ status = 200 ∨
      ∃ row, r.request.slot = .uploaded row ∧ status ≠ 409)
    (hd : w.Declines e ↔ r.request.slot = .prepared ∧ w.TakesNothing status body) :
    Turn granted granted' w e (w.finish id r error status errorString body) := by
  rcases hslot : r.request.slot.isTransfer with - | -
  · have hne : r.request.slot ≠ .prepared := fun hs => by simp [hs, ReplySlot.isTransfer] at hslot
    have hv := finish_aside hslot id error status errorString body w
    rw [hold hne]
    refine .holds hv.service hv.signals (hv.counts fun q hq => hq.2.2).2
      (fun h => (h.gone id).aside hv fun q hq => hq.2.2) (fun h => ?_) fun hand => hne (hd.1 hand).1
    have hgone : Climbs (tokenFor granted) (w.setReply id none) := ⟨h.busy, h.file, h.march⟩
    exact hgone.aside hv fun q hq => hq.2.2
  · obtain ⟨hreply, hb⟩ := ht.waited id r hr hslot
    have hc := ht.lasting hb
    have hwaits : w.service.reply ≠ none := by simp [hreply]
    unfold finish
    extract_lets v
    rcases ht.slot hphase hr hslot with ⟨hs, hasks⟩ | ⟨⟨row, hs⟩, hclimbs⟩
    · have hnothing : w.TakesNothing status body ↔ w.Declines e := by simp [hd, hs]
      rw [hs]
      simp only
      have hv : Answered v status body (v.onPrepareFinished id error status body) :=
        onPrepareFinished_phase (hasks.gone id) hc hreply error status body
      cases hv with
      | onward h200 honward hsome =>
        rw [← hnew hs h200] at honward
        have hsome : ¬ w.Declines e := fun hdecl => hsome (hnothing.2 hdecl)
        cases honward with
        | goes hgoes hclimbs => exact .goes hwaits ⟨hgoes.busy, hgoes.signals, hgoes.begun⟩ hclimbs hsome
        | ends hends hclosed hserved =>
          exact .ends ⟨hends.busy, hends.signals, hends.begun⟩ (iff_of_true hclosed hsome)
            fun _ => hserved
      | nothing hends hopen hserved hnone =>
        refine .ends ⟨hends.busy, hends.signals, hends.begun⟩
          (iff_of_false hopen (not_not_intro (hnothing.1 hnone))) fun hon => ?_
        rcases hgoes hon with ⟨-, h200⟩ | ⟨row, hrow, -⟩
        · rw [hnew hs h200]
          exact hserved h200
        · cases hs.symm.trans hrow
      | fails hne hends hclosed hsome =>
        refine .ends ⟨hends.busy, hends.signals, hends.begun⟩
          (iff_of_true hclosed fun hdecl => hsome (hnothing.2 hdecl)) fun hon => ?_
        rcases hgoes hon with ⟨-, h200⟩ | ⟨row, hrow, -⟩
        · exact absurd h200 hne
        · cases hs.symm.trans hrow
      | prompts retry hne hasks hnone hsignals hbegun hsome =>
        exact .prompts retry hsignals hbegun hnone hasks fun hdecl => hsome (hnothing.2 hdecl)
    · have hne : r.request.slot ≠ .prepared := by simp [hs]
      have hsome : ¬ w.Declines e := fun hand => hne (hd.1 hand).1
      have hv : Climbs (tokenFor granted) v := ⟨hclimbs.busy, hclimbs.file, hclimbs.march⟩
      obtain ⟨hother, h409⟩ := onUploadFinished_phase hv hc id error status errorString
      rw [hold hne, hs]
      simp only
      by_cases hstopped : status = 409
      · obtain ⟨hends, hclosed⟩ := h409 hstopped
        refine .ends ⟨hends.busy, hends.signals, hends.begun⟩ (iff_of_true hclosed hsome) fun hon => ?_
        rcases hgoes hon with ⟨hprepared, -⟩ | ⟨_, -, hstatus⟩
        · exact absurd hprepared hne
        · exact absurd hstopped hstatus
      · cases hother hstopped with
        | goes hgoes hclimbs => exact .goes hwaits ⟨hgoes.busy, hgoes.signals, hgoes.begun⟩ hclimbs hsome
        | ends hends hclosed hserved =>
          exact .ends ⟨hends.busy, hends.signals, hends.begun⟩ (iff_of_true hclosed hsome)
            fun _ => hserved

/-! ## While something is being sent -/

theorem granting_new (hr : w.replies id = some r) (hsent : r.sent = true)
    (hs : r.request.slot = .prepared) (error : Bool) (errorString : QString) (body : QByteArray) :
    w.granting granted (.answered id error 200 errorString body) = grants body := by
  obtain ⟨⟨_, _, _, _, _, slot⟩, sent, _⟩ := r
  obtain rfl : sent = true := hsent
  obtain rfl : slot = .prepared := hs
  simp only [granting, hr]

theorem granting_old (h : ∀ r, w.replies id = some r → r.sent = true → r.request.slot ≠ .prepared)
    (error : Bool) (status : Nat) (errorString : QString) (body : QByteArray) :
    w.granting granted (.answered id error status errorString body) = granted := by
  unfold granting
  split
  · rename_i heq
    cases heq
    split
    · rename_i hr
      exact absurd rfl (h _ hr rfl)
    · rfl
  · rfl

/-- Nothing that counts is changed. -/
theorem Turn.same (hservice : v.service = w.service) (htransfer : v.transfer = w.transfer)
    (hreplies : v.replies = w.replies) (hlog : v.log = w.log) (hsignals : v.signals = w.signals)
    (hd : ¬ w.Declines e) : Turn granted granted w e v := by
  refine .holds hservice hsignals (by rw [hlog]) (fun h => ?_) (fun h => ?_) hd
  · exact ⟨by rw [hservice]; exact h.busy, by rw [htransfer]; exact h.files,
      by rw [htransfer]; exact h.rows, by rw [hlog]; exact h.uploads,
      by rw [hservice]; exact h.session, by rw [hservice]; exact h.file,
      by rw [hreplies]; exact h.slots⟩
  · exact ⟨by rw [hservice]; exact h.busy, by rw [hservice]; exact h.file,
      by rw [hservice, htransfer, hlog]; exact h.march⟩

theorem requestUpload_slots (h : ∀ id r row, w.replies id = some r → r.request.slot ≠ .uploaded row)
    (hv : v.replies = w.replies) (pin : QString) :
    ∀ id r row, (v.requestUpload pin).replies id = some r → r.request.slot ≠ .uploaded row := by
  intro id r row hr
  by_cases hid : id = v.nextReply
  · obtain ⟨q, hq, hslot⟩ : ∃ q, (v.requestUpload pin).replies id = some q ∧
        q.request.slot = .prepared := by
      subst hid
      exact ⟨_, Function.update_self _ _ _, rfl⟩
    obtain rfl := Option.some.inj (hq.symm.trans hr)
    simp [hslot]
  · have hold : (v.requestUpload pin).replies id = v.replies id := Function.update_of_ne hid _ _
    rw [hold, hv] at hr
    exact h id r row hr

/-- The file list is posted once more, with a PIN. -/
theorem Asks.submitPin (h : Asks w) {pin : QString} (hpin : pin ≠ []) :
    Asks (w.submitPin pin) ∧ (w.submitPin pin).signals = w.signals ∧
      begun (w.submitPin pin).log = begun w.log := by
  unfold Sender.submitPin
  rw [if_neg (by simp [h.busy, hpin])]
  extract_lets s v
  have hfiles : (v.setState .requesting []).transfer.files = w.transfer.files :=
    TransferModel.files_setState _ _ _
  obtain ⟨q, hq, hslot, hbegins⟩ : ∃ q : QNetworkRequest, ((v.setState .requesting []).requestUpload
      pin).log = w.log ++ [⟨w.known, w.settings.isEncrypted, .posted q⟩] ∧ q.slot = .prepared ∧
        (Outbound.posted q).begins = false := by
    refine ⟨_, rfl, rfl, ?_⟩
    cases pin with
    | nil => exact absurd rfl hpin
    | cons c pin => rfl
  have hrow : (Outbound.posted q).row? = none := by
    obtain ⟨_, _, _, _, _, slot⟩ := q
    obtain rfl : slot = .prepared := hslot
    rfl
  refine ⟨⟨h.busy, fun hnil => h.files (hfiles ▸ hnil), fun f hf => h.rows f (hfiles ▸ hf), ?_,
    h.session, h.file, requestUpload_slots (v := v.setState .requesting []) h.slots rfl pin⟩, rfl, ?_⟩
  · rw [hq, uploads_concat]
    simp [hbegins, hrow, h.uploads]
  · rw [hq, begun_concat]
    simp [hbegins]

/-- A request goes on, as it was. -/
theorem mark_turn (hr : w.replies id = some r) {q : Option QNetworkReply}
    (hq : ∀ r', q = some r' → r'.request = r.request) {o : Outbound}
    (ho : o.begins = false ∧ o.row? = none) (hd : ¬ w.Declines e) :
    Turn granted granted w e ((w.setReply id q).emit o) := by
  obtain ⟨huploads, hbegun⟩ : uploads ((w.setReply id q).emit o).log = uploads w.log ∧
      begun ((w.setReply id q).emit o).log = begun w.log := by
    apply uploads_append
    simpa using ho
  refine .holds rfl rfl hbegun (fun h => ?_) (fun h => ⟨h.busy, h.file, ?_⟩) hd
  · refine ⟨h.busy, h.files, h.rows, huploads.trans h.uploads, h.session, h.file,
      fun j p row hp hs => ?_⟩
    change (w.setReply id q).replies j = some p at hp
    by_cases hj : j = id
    · subst hj
      rw [setReply_self] at hp
      exact h.slots j r row hr (hq p hp ▸ hs)
    · rw [setReply_ne hj] at hp
      exact h.slots j p row hp hs
  · rw [huploads]
    exact h.march

theorem step_turn (ht : w.Tidy) (hphase : Asks w ∨ Climbs (tokenFor granted) w)
    (hp : w.Patient e) : Turn granted (w.granting granted e) w e (w.step e) := by
  have hb : w.service.busy = true := hphase.elim Asks.busy Climbs.busy
  have same : w.granting granted e = granted → ¬ w.Declines e →
      Turn granted (w.granting granted e) w e w := fun hg hd => by
    rw [hg]
    exact .holds rfl rfl rfl id id hd
  by_cases hdisc : e.isDiscovery = true
  · have hg : w.granting granted e = granted := by cases e <;> first | rfl | cases hdisc
    rw [hg]
    refine .aside (step_aside hdisc w) (fun q hq => hq.unrelated hdisc) fun hd => ?_
    cases e <;> first | exact hd.elim | cases hdisc
  cases e with
  | connects id certificate reported =>
    simp only [step]
    cases hr : w.replies id with
    | none => exact same rfl not_false
    | some r =>
      simp only [connect]
      split
      · exact same rfl not_false
      · split
        · exact mark_turn hr (fun r' hr' => by cases hr'; rfl) ⟨rfl, rfl⟩ not_false
        · refine finish_turn ht hphase hr true 0 _ [] (fun _ h => by cases h) (fun _ => rfl) ?_ ?_
          · rintro ⟨q, row, hq, -, -, hslot⟩
            obtain rfl := Option.some.inj (hr.symm.trans hq)
            exact .inr ⟨row, hslot, by decide⟩
          · refine iff_of_false not_false ?_
            rintro ⟨-, h | h | ⟨h, -⟩⟩ <;> cases h
  | answered id error status errorString body =>
    simp only [step]
    cases hr : w.replies id with
    | none =>
      refine same (granting_old (fun r hr' => by cases hr.symm.trans hr') _ _ _ _) ?_
      rintro ⟨⟨r, hr', -⟩, -⟩
      cases hr.symm.trans hr'
    | some r =>
      simp only
      split
      · rename_i hsent
        refine finish_turn ht hphase hr error status errorString body ?_ ?_ ?_ ?_
        · rintro hs rfl
          exact granting_new hr hsent hs _ _ _
        · refine fun hs => granting_old (fun q hq _ => ?_) _ _ _ _
          obtain rfl := Option.some.inj (hr.symm.trans hq)
          exact hs
        · rintro ⟨q, hq, -, hon⟩
          obtain rfl := Option.some.inj (hr.symm.trans hq)
          exact hon
        · refine ⟨fun hgrants => ?_, fun hand => ⟨⟨r, hr, hsent, hand.1⟩, hand.2⟩⟩
          obtain ⟨⟨q, hq, -, hs⟩, hnothing⟩ := hgrants
          obtain rfl := Option.some.inj (hr.symm.trans hq)
          exact ⟨hs, hnothing⟩
      · rename_i hunsent
        refine same (granting_old (fun q hq hsent => ?_) _ _ _ _) ?_
        · obtain rfl := Option.some.inj (hr.symm.trans hq)
          exact absurd hsent hunsent
        · rintro ⟨⟨q, hq, hsent, -⟩, -⟩
          obtain rfl := Option.some.inj (hr.symm.trans hq)
          exact hunsent hsent
  | fails id errorString =>
    simp only [step]
    cases hr : w.replies id with
    | none => exact same rfl not_false
    | some r =>
      refine finish_turn ht hphase hr true 0 _ [] (fun _ h => by cases h) (fun _ => rfl) ?_ ?_
      · rintro ⟨q, row, hq, -, hslot⟩
        obtain rfl := Option.some.inj (hr.symm.trans hq)
        exact .inr ⟨row, hslot, by decide⟩
      · refine iff_of_false not_false ?_
        rintro ⟨-, h | h | ⟨h, -⟩⟩ <;> cases h
  | uploadProgress id sent =>
    simp only [step]
    split
    · rename_i hr
      refine .holds rfl rfl rfl (fun h => absurd rfl (h.slots id _ _ hr)) (fun h => ?_) not_false
      obtain ⟨row, hrow, hmarch⟩ := h.march
      refine ⟨h.busy, h.file, row, hrow, hmarch.congr ?_ fun row => ?_⟩
      · exact TransferModel.fileCount_congr (TransferModel.alike_setFileTransferred _ _ _).declared
      · exact TransferModel.entry_setFileTransferred _ _ _ _
    · exact same rfl not_false
  | hold row =>
    simp only [step]
    split
    · exact .same rfl rfl rfl rfl rfl not_false
    · exact same rfl not_false
  | sendFiles device paths =>
    have hsame : w.step (.sendFiles device paths) = w := by
      simp only [step, sendFiles, hb, true_or, if_true, ite_self]
    rw [hsame]
    exact same rfl not_false
  | submitPin pin =>
    by_cases hpin : pin = []
    · have hsame : w.step (.submitPin pin) = w := if_pos (.inr hpin)
      rw [hsame]
      exact same rfl not_false
    · have hrests := ht.rests (.inl (hp hb hpin))
      have hasks : Asks w := hphase.resolve_right fun h => h.file (ht.closed hrests)
      obtain ⟨hv, hsignals, hbegun⟩ := hasks.submitPin hpin
      exact .asksAgain (decide_eq_true hpin) hsignals hbegun hv not_false
  | cancel =>
    obtain ⟨hends, hclosed⟩ := cancel_ends hb
    exact .ends hends (iff_of_true hclosed not_false) False.elim
  | edit e => exact .same rfl rfl rfl rfl rfl not_false
  | settings s => exact .same rfl rfl rfl rfl rfl not_false
  | files files => exact .same rfl rfl rfl rfl rfl not_false
  | tick ms => exact .same rfl rfl rfl rfl rfl not_false
  | _ => exact absurd rfl hdisc

/-! ## While nothing is being sent -/

omit [Qt] in
theorem fileEntries_rows (i : Nat) (paths : List QString) (w : Sender) :
    ∀ f ∈ (fileEntries i paths w).1, f.status = .waiting ∧ f.token = [] := by
  induction paths generalizing i w with
  | nil => nofun
  | cons path paths ih =>
    unfold fileEntries
    cases w.files path with
    | none => exact ih (i + 1) w
    | some file =>
      intro f hf
      rcases List.mem_cons.1 hf with rfl | hf
      · exact ⟨rfl, rfl⟩
      · exact ih (i + 1) w.generateToken.2 f hf

/-- A transfer is begun: it asks. -/
theorem Rests.begins (h : w.Rests) (hf : w.service.currentFile = Option.none) (peer : DeviceInfo)
    {entries : List FileEntry} (hne : entries ≠ [])
    (hrows : ∀ f ∈ entries, f.status = .waiting ∧ f.token = []) :
    Asks (((w.beginSending peer entries).setState .requesting []).requestUpload []) ∧
      (((w.beginSending peer entries).setState .requesting []).requestUpload []).signals = w.signals ∧
        begun (((w.beginSending peer entries).setState .requesting []).requestUpload []).log =
          begun w.log + 1 := by
  have hfiles : ((w.beginSending peer entries).setState .requesting []).transfer.files = entries :=
    TransferModel.files_setState _ _ _
  have hslots : ∀ id r row, w.replies id = some r → r.request.slot ≠ .uploaded row := by
    intro id r row hr hs
    cases (h.none id r hr).symm.trans (isTransfer_of_uploaded hs)
  obtain ⟨q, hq, hbegins⟩ : ∃ q : QNetworkRequest,
      (((w.beginSending peer entries).setState .requesting []).requestUpload []).log =
        w.log ++ [⟨w.known, w.settings.isEncrypted, .posted q⟩] ∧
          (Outbound.posted q).begins = true := ⟨_, rfl, rfl⟩
  refine ⟨⟨rfl, fun hnil => hne (hfiles ▸ hnil), fun f hf => hrows f (hfiles ▸ hf), ?_, rfl, hf,
    requestUpload_slots (v := (w.beginSending peer entries).setState .requesting []) hslots rfl []⟩,
    rfl, ?_⟩
  · rw [hq, uploads_concat]
    simp [hbegins]
  · rw [hq, begun_concat]
    simp [hbegins]

theorem idle_turn (ht : w.Tidy) (hb : w.service.busy = false) (e : SenderEvent) :
    ((w.step e).service.busy = false ∧ (w.step e).signals = w.signals ∧
        begun (w.step e).log = begun w.log) ∨
      Asks (w.step e) ∧ (w.step e).signals = w.signals ∧
        begun (w.step e).log = begun w.log + 1 := by
  have hrests := ht.rests (.inr hb)
  by_cases hdisc : e.isDiscovery = true
  · have hv := step_aside hdisc w
    refine .inl ⟨by rw [hv.service]; exact hb, hv.signals, ?_⟩
    exact (hv.counts fun q hq => hq.unrelated hdisc).2
  by_cases hreply : e.isReply = true
  · rcases step_reply hreply w with heq | ⟨id, r, certificate, seen, -, heq⟩ | ⟨id, r, error, status,
      errorString, body, hr, heq⟩
    · rw [heq]
      exact .inl ⟨hb, rfl, rfl⟩
    · rw [heq]
      exact .inl ⟨hb, rfl, begun_concat _ _⟩
    · rw [heq]
      have hv := finish_aside (hrests.none id r hr) id error status errorString body w
      refine .inl ⟨by rw [hv.service]; exact hb, hv.signals, ?_⟩
      exact (hv.counts fun q hq => hq.2.2).2
  cases e with
  | uploadProgress id sent =>
    simp only [step]
    split <;> exact .inl ⟨hb, rfl, rfl⟩
  | hold row =>
    simp only [step]
    split <;> exact .inl ⟨hb, rfl, rfl⟩
  | sendFiles device paths =>
    simp only [step]
    split
    · unfold sendFiles
      extract_lets peer
      split
      · exact .inl ⟨hb, rfl, rfl⟩
      · split
        · exact .inl ⟨hb, rfl, rfl⟩
        · have hentries := fileEntries_holds 0 paths w
          have hnoted := fileEntries_noted 0 paths w
          have hrows := fileEntries_rows 0 paths w
          rcases hv : fileEntries 0 paths w with ⟨entries, v⟩
          rw [hv] at hentries hnoted hrows
          simp only
          split
          · exact .inl ⟨by rw [hentries.service]; exact hb, hentries.signals, by rw [hentries.log]⟩
          · rename_i hne
            have hclosed : v.service.currentFile = none := by
              rw [hentries.service]
              exact ht.closed hrests
            have hbegun := (hrests.noted hnoted).begins hclosed peer hne hrows
            rw [hentries.signals, hentries.log] at hbegun
            exact .inr hbegun
    · exact .inl ⟨hb, rfl, rfl⟩
  | submitPin pin =>
    have hsame : w.step (.submitPin pin) = w := if_pos (.inl (by simp [hb]))
    rw [hsame]
    exact .inl ⟨hb, rfl, rfl⟩
  | cancel =>
    have hsame : w.step .cancel = w := if_pos (by simp [hb])
    rw [hsame]
    exact .inl ⟨hb, rfl, rfl⟩
  | edit e => exact .inl ⟨hb, rfl, rfl⟩
  | settings s => exact .inl ⟨hb, rfl, rfl⟩
  | files files => exact .inl ⟨hb, rfl, rfl⟩
  | tick ms => exact .inl ⟨hb, rfl, rfl⟩
  | connects => exact absurd rfl hreply
  | answered => exact absurd rfl hreply
  | fails => exact absurd rfl hreply
  | _ => exact absurd rfl hdisc

/-! ## Both -/

/-- What is being sent asks, or goes up. -/
def Phased (granted : QJsonObject) (w : Sender) : Prop :=
  w.service.busy = true → Asks w ∨ Climbs (tokenFor granted) w

theorem Phased.step (h : Phased granted w) (ht : w.Tidy) (hp : w.Patient e) :
    Phased (w.granting granted e) (w.step e) := by
  cases hb : w.service.busy with
  | false =>
    rcases idle_turn ht hb e with ⟨hidle, -⟩ | ⟨hasks, -⟩
    · exact fun hbusy => by cases hidle.symm.trans hbusy
    · exact fun _ => .inl hasks
  | true =>
    have hphase := h hb
    cases step_turn ht hphase hp with
    | holds _ _ _ hasks hclimbs _ => exact fun _ => hphase.imp hasks hclimbs
    | asksAgain _ _ _ hasks _ => exact fun _ => .inl hasks
    | prompts _ _ _ _ hasks _ => exact fun _ => .inl hasks
    | goes _ _ hclimbs _ => exact fun _ => .inr hclimbs
    | ends hends _ _ => exact fun hbusy => by cases hends.busy.symm.trans hbusy

end

end Sender

end LocalSend
