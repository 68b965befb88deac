import LocalSend.Receive.Proof.Listening

/-!
# Every request is answered

A request that is in is answered in the slot it is handed to, or parked; and a parked one is let go
only with an answer (`requests_answered`), but for one slot: a `/cancel` lets it go without.
-/

set_option autoImplicit false

namespace LocalSend

namespace World

/-- Every request that is in has been answered, or is the parked one. -/
def Answered (w : World) : Prop := ∀ i, (w.conns i).bodyComplete = true →
  (w.conns i).state = .responded ∨ w.pending = some i

/-- So it is with all connections but `i`. -/
def AnsweredBut (i : ConnId) (w : World) : Prop := ∀ j, j ≠ i → (w.conns j).bodyComplete = true →
  (w.conns j).state = .responded ∨ w.pending = some j

section
variable [Qt] {g : Guard} {w v : World} {i : ConnId}

/-- No `/cancel` comes in while a request is parked. -/
def Patient (w : World) (e : Event) : Prop := ∀ i data, e = .readyRead i data →
  w.Completes i data → ((w.heard i data).conns i).path = endpoint Protocol.PathCancel →
  w.pending = none

omit [Qt] in
theorem AnsweredBut.congr (h : w.AnsweredBut i) (hp : v.pending = w.pending)
    (hc : ∀ j, j ≠ i → (v.conns j).bodyComplete = (w.conns j).bodyComplete ∧
      ((w.conns j).state = .responded → (v.conns j).state = .responded)) : v.AnsweredBut i := by
  intro j hj hcomp
  obtain ⟨h1, h2⟩ := hc j hj
  rw [hp]
  exact (h j hj (h1.symm.trans hcomp)).imp_left h2

omit [Qt] in
/-- One connection changes. -/
theorem AnsweredBut.update (h : w.AnsweredBut i) {k : ConnId} {c : HttpConnection}
    (hp : v.pending = w.pending) (hv : v.conns = Function.update w.conns k c)
    (hc : k ≠ i → c.bodyComplete = (w.conns k).bodyComplete ∧
      ((w.conns k).state = .responded → c.state = .responded)) : v.AnsweredBut i := by
  refine h.congr hp fun j hj => ?_
  rw [hv]
  by_cases hjk : j = k
  · subst hjk
    rw [Function.update_self]
    exact hc hj
  · rw [Function.update_of_ne hjk]
    exact ⟨rfl, id⟩

theorem Act.answeredBut (ha : Act g w v) (hr : ∀ j, g.reads j → j = i) (hf : ¬ g.forget)
    (h : w.AnsweredBut i) : v.AnsweredBut i := by
  have same : ∀ {v : World}, v.conns = w.conns → v.pending = w.pending → v.AnsweredBut i := by
    intro v hc hp
    exact h.congr hp fun j _ => by rw [hc]; exact ⟨rfl, id⟩
  cases ha with
  | outside => exact same rfl rfl
  | aside => exact same rfl rfl
  | files => exact same rfl rfl
  | probe => exact same rfl rfl
  | conns hc => exact h.congr rfl fun j _ => ⟨(hc j).bodyComplete, (hc j).answered⟩
  | read _ hc => exact h.update rfl rfl fun _ => ⟨hc.bodyComplete, hc.answered⟩
  | complete hk => exact h.update rfl rfl fun hne => absurd (hr _ hk) hne
  | reply _ _ hc => exact h.update rfl rfl fun _ => ⟨hc.bodyComplete, hc.answered⟩
  | connect _ address certificate =>
    intro j hj hcomp
    by_cases hnew : j = w.nextConn
    · subst hnew
      rw [show (w.connect address certificate).conns w.nextConn = _ from
        Function.update_self _ _ _] at hcomp
      cases hcomp
    · rw [show (w.connect address certificate).conns j = w.conns j from
        Function.update_of_ne hnew _ _] at hcomp ⊢
      exact h j hj hcomp
  | transfer => exact same rfl rfl
  | @wrote k f data =>
    refine h.update (c := { w.conns k with
      bodyReceived := (w.conns k).bodyReceived + data.length }) ?_ ?_ fun _ => ⟨rfl, id⟩
    · unfold World.write
      split <;> rfl
    · rw [setConn, conns_write]
  | @short k f data c _ _ _ _ hc =>
    refine h.update (c := c) ?_ ?_ fun _ => ⟨hc.bodyComplete, hc.answered⟩
    · unfold World.write
      split <;> rfl
    · rw [setConn, conns_write]
  | park hb =>
    intro j hj hcomp
    rcases h j hj hcomp with hst | hp
    · exact .inl hst
    · exact absurd (.inl (by rw [hp]; exact Option.some_ne_none j)) hb
  | prompt => exact same rfl rfl
  | @openSession k directory hp hst =>
    obtain ⟨id, d, t, tokens, heq, -⟩ := openSession_eq w k directory
    rw [heq]
    intro j hj hcomp
    rcases h j hj hcomp with hst' | hp'
    · exact .inl hst'
    · obtain rfl : k = j := Option.some.inj (hp.symm.trans hp')
      exact .inl hst
  | release hrel =>
    intro j hj hcomp
    rcases h j hj hcomp with hst | hp
    · exact .inl hst
    · exact .inl ((hrel j hp).resolve_right hf)
  | @enter k row path =>
    obtain ⟨d, hd⟩ := entered_eq w k row path { w.conns k with
      sink := some k
      maxBodyBytes := (w.transfer.entry row).size }
    rw [hd]
    exact h.update rfl rfl fun _ => ⟨rfl, id⟩
  | mark => exact same rfl rfl
  | @drop k u c error _ hc =>
    obtain ⟨d, hd⟩ := dropUpload_eq k u error w
    rw [hd]
    exact h.update rfl rfl fun _ => ⟨hc.bodyComplete, hc.answered⟩
  | @settle k u =>
    obtain ⟨d, t, l, heq⟩ := settleUpload_eq k u { w with uploads := w.uploads.erase k }
    rw [heq]
    exact same rfl rfl
  | remember =>
    unfold rememberPeer
    split <;> exact same rfl rfl
  | record =>
    unfold writeHistory
    split <;> exact same rfl rfl
  | finish => exact same rfl rfl
  | posted => exact same rfl rfl

theorem Acts.answeredBut (ha : Acts g w v) (hr : ∀ j, g.reads j → j = i) (hf : ¬ g.forget)
    (h : w.AnsweredBut i) : v.AnsweredBut i :=
  ha.keep (P := AnsweredBut i) (fun hact hw => hact.answeredBut hr hf hw) h

/-! ## The slots that are handed a request -/

theorem Acts.responded (ha : Acts g w v) (h : w.Inv) (hi : i < w.nextConn)
    (hst : (w.conns i).state = .responded) : (v.conns i).state = .responded :=
  ((ha.kept h).2 i hi).answered hst

/-- Accepting answers the parked request, whatever it is answered. -/
theorem accept_responded (hp : w.pending = some i) : (w.accept.conns i).state = .responded := by
  unfold accept
  simp only [hp]
  obtain ⟨directory, d, heq⟩ := prepareDirectory_eq w
  simp only [heq]
  split
  · obtain ⟨c, hst, -, hv | hv⟩ := parted_respond { w with disk := d } i 500 [] jsonType
    all_goals
      rw [hv]
      change (World.conns (World.setConn i c _) i).state = _
      rw [conns_setConn]
      exact hst
  · obtain ⟨c, hst, -, hv | hv⟩ := parted_respond
      (World.openSession i directory { w with disk := d }) i 200
      (Qt.toJson (World.openSession i directory { w with disk := d }).acceptResponse) jsonType
    all_goals
      rw [Port.respondJson, hv]
      change (World.conns (World.setConn i c _) i).state = _
      rw [conns_setConn]
      exact hst

theorem handlePrepareUpload_answers (hi : i < w.nextConn) :
    ((w.handlePrepareUpload i).conns i).state = .responded ∨
      (w.handlePrepareUpload i).pending = some i := by
  have hprepares := handlePrepareUpload_prepares w i
  generalize w.handlePrepareUpload i = v at hprepares ⊢
  cases hprepares with
  | refused limiter headers => exact .inl (respond_unread (by exact hi) _ _ _).2
  | accepted => exact .inl (accept_responded rfl)
  | prompted => exact .inr rfl

theorem handleUploadFinished_responded (h : w.Inv) (hi : i < w.nextConn)
    (hst : (w.conns i).state = .readingBody) (hc : (w.conns i).bodyComplete = true) :
    ((w.handleUploadFinished i).conns i).state = .responded := by
  unfold handleUploadFinished
  cases hu : w.uploads.lookup i with
  | none =>
    simp only
    split
    · rename_i hdone
      unfold HttpConnection.hasResponded at hdone
      exact eq_of_beq hdone
    · exact (respond_unread hi _ _ _).2
  | some u =>
    have hsettled : Act .all w (settleUpload i u { w with uploads := w.uploads.erase i }).2 :=
      .settle hu hst hc fun _ => trivial
    have hinv := hsettled.inv h
    have hi₁ := Nat.lt_of_lt_of_le hi (hsettled.kept h).1
    have hrespond : Acts .all (settleUpload i u { w with uploads := w.uploads.erase i }).2
        (World.respond i (settleUpload i u { w with uploads := w.uploads.erase i }).1
          (settleUpload i u { w with uploads := w.uploads.erase i }).2) :=
      (port_of i).respond_acts trivial (settleUpload_mayAnswer h hu)
    have hst := (respond_unread hi₁ (settleUpload i u { w with
      uploads := w.uploads.erase i }).1 [] jsonType).2
    have hi₂ := Nat.lt_of_lt_of_le hi₁ (hrespond.kept hinv).1
    have hconclude := concludeUpload_acts (g := .all) (World.respond i
      (settleUpload i u { w with uploads := w.uploads.erase i }).1
      (settleUpload i u { w with uploads := w.uploads.erase i }).2)
    exact hconclude.responded (hrespond.inv hinv) hi₂ hst

theorem handleCancel_responded (h : w.Inv) (hi : i < w.nextConn)
    (hst : (w.conns i).state ≠ .readingHeaders)
    (hpath : (w.conns i).path = endpoint Protocol.PathCancel) :
    ((w.handleCancel i).conns i).state = .responded := by
  have hrespond : Acts .all w (w.respond i 200) := by
    refine (port_of i).respond_acts trivial (.of_path hst ?_ ?_ ?_) <;> rw [hpath] <;> decide
  have hconclude := concludeCancel_acts (g := .all) ((w.conns i).queryValue (str "sessionId"))
    (w.respond i 200) fun _ => trivial
  exact hconclude.responded (hrespond.inv h) (Nat.lt_of_lt_of_le hi (hrespond.kept h).1)
    (respond_unread hi 200 [] jsonType).2

/-- Whatever is asked for, it is answered or parked. -/
theorem onRequestReady_answers (h : w.Inv) (hi : i < w.nextConn)
    (hst : (w.conns i).state = .readingBody) (hc : (w.conns i).bodyComplete = true) :
    ((w.onRequestReady i).conns i).state = .responded ∨ (w.onRequestReady i).pending = some i := by
  have hhead : (w.conns i).state ≠ .readingHeaders := by
    rw [hst]
    exact State.noConfusion
  unfold onRequestReady
  extract_lets path
  split
  · exact .inl (respond_unread hi _ _ _).2
  split
  · have hregister : Acts .all w (w.registerPeer (w.conns i).jsonBody (w.conns i).peerAddress).2 :=
      registerPeer_acts _ _ w
    exact .inl (respond_unread (Nat.lt_of_lt_of_le hi (hregister.kept h).1) _ _ _).2
  split
  · exact handlePrepareUpload_answers hi
  split
  · exact .inl (handleUploadFinished_responded h hi hst hc)
  split
  · rename_i hpath
    exact .inl (handleCancel_responded h hi hhead hpath)
  · exact .inl (respond_unread hi _ _ _).2

/-! ## Runs -/

/-- Nothing is read, and no parked request is let go without an answer. -/
def minding : Guard := { Guard.all with
  reads := fun _ => False
  forget := False }

omit [Qt] in
theorem Answered.but (h : w.Answered) (i : ConnId) : w.AnsweredBut i := fun j _ => h j

omit [Qt] in
theorem AnsweredBut.and (h : w.AnsweredBut i)
    (hi : (w.conns i).bodyComplete = true → (w.conns i).state = .responded ∨ w.pending = some i) :
    w.Answered := by
  intro j hcomp
  by_cases hj : j = i
  · subst hj
    exact hi hcomp
  · exact h j hj hcomp

theorem Answered.acts (h : w.Answered) (ha : Acts minding w v) : v.Answered := by
  intro i hcomp
  exact ha.answeredBut (i := i + 1) (fun _ => False.elim) id (h.but _) i (Nat.succ_ne_self i).symm
    hcomp

/-- The request of `i` is handed to the service. -/
theorem Answered.whole (h : w.Answered) (hinv : w.Inv) (hi : i < w.nextConn) (hr : Reads i w v)
    (hpatient : (v.conns i).path = endpoint Protocol.PathCancel → w.pending = none) :
    (v.onRequestReady i).Answered := by
  have hv : v.Inv := hr.acts.inv hinv
  have hiv : i < v.nextConn := hr.toNear.born hinv hi
  have hbut : v.AnsweredBut i := hr.acts.answeredBut (fun _ hj => hj) id (h.but i)
  have hpromises : Promises minding v i := {
    park := fun _ => trivial
    finish := fun _ _ _ => trivial
    forget := fun hpath hp _ => hp (hr.pending.trans (hpatient hpath)) }
  have hacts : Acts minding v (v.onRequestReady i) :=
    onRequestReady_acts hv hiv hr.state hr.complete hpromises
  exact (hacts.answeredBut (fun _ => False.elim) id hbut).and fun _ =>
    onRequestReady_answers hv hiv hr.state hr.complete

/-- What comes in after a request that is in changes nothing about it. -/
theorem Answered.heard (h : w.Answered) (hinv : w.Inv) (hl : w.live i = true) {data : QByteArray}
    (hc : (w.conns i).bodyComplete = true) :
    ((w.heard i data).conns i).state = .responded ∨ (w.heard i data).pending = some i := by
  cases readyRead_comes hinv hl data with
  | late _ heq hsame =>
    rw [hsame, heq, conns_setConn]
    exact h i hc
  | part hfresh => exact absurd (hc.symm.trans hfresh) (by decide)
  | whole hfresh => exact absurd (hc.symm.trans hfresh) (by decide)

theorem Answered.step (h : w.Answered) (hinv : w.Inv) {e : Event} (he : w.Patient e) :
    (w.step e).Answered := by
  have quiet : (∀ i data, e ≠ .readyRead i data) → (w.step e).Answered := by
    intro hne
    refine h.acts (step_acts hinv e ?_)
    exact {
      reads := fun i data heq => absurd heq (hne i data)
      outside := fun _ => trivial
      system := fun _ _ => trivial
      files := fun _ _ => trivial
      serves := fun i data heq => absurd heq (hne i data) }
  cases e with
  | readyRead i data =>
    by_cases hlive : w.live i = true
    · by_cases hc : w.Completes i data
      · obtain ⟨hr, heq⟩ := hc.reads hinv
        rw [heq]
        exact h.whole hinv (born_of_live hlive) hr (he i data rfl hc)
      · rw [step_incomplete hinv hlive hc]
        refine ((heard_acts hinv hlive data).answeredBut (fun _ hj => hj) id (h.but i)).and fun hin => ?_
        by_cases hfresh : (w.conns i).bodyComplete = true
        · exact h.heard hinv hlive hfresh
        · exact absurd ⟨hlive, Bool.eq_false_iff.2 hfresh, hin⟩ hc
    · rw [show w.step (.readyRead i data) = w from if_neg hlive]
      exact h
  | _ => exact quiet fun _ _ => Event.noConfusion

theorem reached_answered (h : Lib.ReachedBy system Patient w) : w.Inv ∧ w.Answered := by
  refine h.invariant (I := fun w => w.Inv ∧ w.Answered) (fun w hs => ⟨Start.inv hs, ?_⟩)
    fun w e hw he => ⟨(step_acts hw.1 e (permits_all w e)).inv hw.1, hw.2.step hw.1 he⟩
  exact fun i _ => .inl (hs.conns i).2

/-- In a run in which no `/cancel` comes in while a request is parked, every request that is in has
been answered or is the parked one, and what lets the parked one go has answered or closed it. -/
theorem requests_answered (h : Lib.ReachedBy system Patient w) :
    (∀ i, (w.conns i).bodyComplete = true →
      (w.conns i).state = .responded ∨ w.pending = some i) ∧
    ∀ e i, w.Patient e → w.pending = some i → (w.step e).pending ≠ some i →
      ((w.step e).conns i).state = .responded := by
  obtain ⟨hinv, hw⟩ := reached_answered h
  refine ⟨hw, fun e i he hp hrel => ?_⟩
  obtain ⟨hi, -, hc, -⟩ := hinv.parked i hp
  have hkept := ((step_acts hinv e (permits_all w e)).kept hinv).2 i hi
  exact (hw.step hinv he i (hkept.complete hc).1).resolve_right hrel

end

/-! ## A request that is let go -/

section

local instance askedQt : Qt := Ascii.qt [(Ascii.json oneFile, oneFile)] []

def askedStart : World := fresh { AppSettings.trusting with
  quickSave := false } .obliging countingSource

/-- A prepare-upload is parked. -/
def askedEvents : List Event := [
  .startListening,
  .connect (str "10.0.0.2") none,
  .readyRead 0 (post prepareTarget (Ascii.json oneFile))]

theorem askedStart_start : askedStart.Start := fresh_start .obliging countingSource (by decide)

theorem offer_declined : ∃ w : World, Patient w .decline ∧ w.pending = some 0 ∧
    ((w.step .decline).conns 0).state = .responded := by
  have hok : Lib.Allowed system Patient askedStart askedEvents := by
    refine ⟨?_, ?_, ?_, trivial⟩
    · rintro i data ⟨⟩
    · rintro i data ⟨⟩
    · rintro i data ⟨⟩ -
      decide +kernel
  have hpatient : Patient (askedEvents.foldl step askedStart) .decline := by
    rintro i data ⟨⟩
  have hp : (askedEvents.foldl step askedStart).pending = some 0 := by decide +kernel
  have hrel : ((askedEvents.foldl step askedStart).step .decline).pending ≠ some 0 := by
    decide +kernel
  have hreached : Lib.ReachedBy system Patient (askedEvents.foldl step askedStart) :=
    Lib.ReachedBy.run _ (.start askedStart_start) hok
  exact ⟨_, hpatient, hp, (requests_answered hreached).2 .decline 0 hpatient hp hrel⟩

/-- A stranger's `/cancel` lets the parked request go, unanswered. -/
theorem cancelled_unanswered : ∃ (w : World) (e : Event), Lib.Reached system w ∧
    w.pending = some 0 ∧ (w.step e).pending = none ∧ ((w.step e).conns 0).closedEmitted = false ∧
    ((w.step e).conns 0).bodyComplete = true ∧ ((w.step e).conns 0).state ≠ .responded :=
  ⟨(askedEvents ++ [Event.connect (str "10.0.0.9") none]).foldl step askedStart,
    .readyRead 1 (post (ascii "/api/localsend/v2/cancel") []),
    Lib.ReachedBy.run_any _ (.start askedStart_start), by decide +kernel⟩

end

end World

end LocalSend
