import LocalSend.Send.Proof.Phases

/-!
# From row to row

Of the rows before the current one each went up, could not be opened, or got no token (`March`). So
it is from one upload to the next (`Climbs`), until every row is accounted for (`Served`).
-/

set_option autoImplicit false

namespace LocalSend.Sender

/-- The row went up, or could not be opened, or has no token. -/
structure Accounted (up : List Nat) (row : Nat) (f : FileEntry) : Prop where
  through : f.status ≠ .waiting ∧ f.status ≠ .transferring
  tried : f.token ≠ [] → row ∈ up ∨ f.status = .failed ∧ f.error = str "Could not open the file"

/-- The rows up to `next` were looked at, one after the other, and the current one is under way. -/
structure March (grant : QString → QString) (up : List Nat) (next : Nat) (current : Option Nat)
    (t : TransferModel) : Prop where
  increasing : up.Pairwise (· < ·)
  below : ∀ row ∈ up, row < next
  token : ∀ row < t.fileCount, (t.entry row).token = grant (t.entry row).id
  granted : ∀ row ∈ up, row < t.fileCount ∧ (t.entry row).token ≠ []
  counted : ∀ row, current = some row → row ∈ up
  past : ∀ row < t.fileCount, row < next → current ≠ some row → Accounted up row (t.entry row)
  ahead : ∀ row < t.fileCount, next ≤ row →
    (t.entry row).status = .waiting ∧ (t.entry row).token ≠ [] ∨
      (t.entry row).status = .skipped ∧ (t.entry row).token = []

/-- The rows go up. -/
structure Climbs (grant : QString → QString) (w : Sender) : Prop where
  busy : w.service.busy = true
  file : w.service.currentFile ≠ none
  march : ∃ row, w.service.currentRow = some row ∧
    March grant (uploads w.log) (row + 1) (some row) w.transfer

variable {u v w : Sender}

/-! ## The rows -/

section
variable {grant : QString → QString} {up : List Nat} {next row : Nat} {current : Option Nat}
  {t t' : TransferModel}

/-- The rows differ in their progress at most. -/
theorem March.congr (h : March grant up next current t) (hcount : t'.fileCount = t.fileCount)
    (hrows : ∀ row, ∃ n, t'.entry row = { t.entry row with transferred := n }) :
    March grant up next current t' where
  increasing := h.increasing
  below := h.below
  counted := h.counted
  token r hr := by
    obtain ⟨n, hn⟩ := hrows r
    rw [hn]
    exact h.token r (hcount ▸ hr)
  granted r hr := by
    obtain ⟨n, hn⟩ := hrows r
    rw [hn, hcount]
    exact h.granted r hr
  past r hr hnext hne := by
    obtain ⟨n, hn⟩ := hrows r
    rw [hn]
    exact ⟨(h.past r (hcount ▸ hr) hnext hne).through, (h.past r (hcount ▸ hr) hnext hne).tried⟩
  ahead r hr hnext := by
    obtain ⟨n, hn⟩ := hrows r
    rw [hn]
    exact h.ahead r (hcount ▸ hr) hnext

/-- The next row has no token. -/
theorem March.skip (h : March grant up next none t) (hlt : next < t.fileCount)
    (hs : (t.entry next).status ≠ .waiting) : March grant up (next + 1) none t where
  increasing := h.increasing
  below r hr := Nat.lt_succ_of_lt (h.below r hr)
  token := h.token
  granted := h.granted
  counted := nofun
  past r hr hnext hne := by
    rcases Nat.lt_succ_iff_lt_or_eq.1 hnext with hlt' | rfl
    · exact h.past r hr hlt' hne
    · obtain ⟨hskipped, htoken⟩ := (h.ahead r hr (Nat.le_refl r)).resolve_left fun hw => hs hw.1
      exact ⟨by simp [hskipped], fun hne => absurd htoken hne⟩
  ahead r hr hnext := h.ahead r hr (Nat.le_of_succ_le hnext)

theorem token_setFileStatus (t : TransferModel) (row : Nat) (s : FileStatus) (e : QString) (r : Nat) :
    ((t.setFileStatus row s e).entry r).token = (t.entry r).token ∧
      ((t.setFileStatus row s e).entry r).id = (t.entry r).id := by
  rw [TransferModel.entry_setFileStatus]
  split <;> exact ⟨rfl, rfl⟩

/-- What the march says of the tokens, and of the rows ahead of a row, holds still when the status of
that row is set. -/
theorem March.beyond (h : March grant up next current t) {next' : Nat} (hrow : row < next')
    (hnext : next ≤ next') (s : FileStatus) (e : QString) :
    (∀ r < (t.setFileStatus row s e).fileCount, ((t.setFileStatus row s e).entry r).token =
      grant ((t.setFileStatus row s e).entry r).id) ∧
    (∀ r ∈ up, r < (t.setFileStatus row s e).fileCount ∧
      ((t.setFileStatus row s e).entry r).token ≠ []) ∧
    ∀ r < (t.setFileStatus row s e).fileCount, next' ≤ r →
      ((t.setFileStatus row s e).entry r).status = .waiting ∧
          ((t.setFileStatus row s e).entry r).token ≠ [] ∨
        ((t.setFileStatus row s e).entry r).status = .skipped ∧
          ((t.setFileStatus row s e).entry r).token = [] := by
  rw [TransferModel.fileCount_setFileStatus]
  refine ⟨fun r hr => ?_, fun r hr => ?_, fun r hr hle => ?_⟩
  · rw [(token_setFileStatus _ _ _ _ _).1, (token_setFileStatus _ _ _ _ _).2]
    exact h.token r hr
  · rw [(token_setFileStatus _ _ _ _ _).1]
    exact h.granted r hr
  · rw [TransferModel.entry_setFileStatus, if_neg (by omega)]
    exact h.ahead r hr (by omega)

/-- The next row could not be opened. -/
theorem March.unopened (h : March grant up next none t) (hlt : next < t.fileCount) :
    March grant up (next + 1) none
      (t.setFileStatus next .failed (str "Could not open the file")) := by
  obtain ⟨htoken, hgranted, hahead⟩ := h.beyond (Nat.lt_succ_self next) (Nat.le_succ next) .failed
    (str "Could not open the file")
  refine ⟨h.increasing, fun r hr => Nat.lt_succ_of_lt (h.below r hr), htoken, hgranted, nofun,
    fun r hr hnext hne => ?_, hahead⟩
  rw [TransferModel.fileCount_setFileStatus] at hr
  rw [TransferModel.entry_setFileStatus]
  by_cases heq : r = next
  · rw [if_pos ⟨heq, hlt⟩]
    exact ⟨by simp [TransferModel.settle], fun _ => .inr ⟨rfl, rfl⟩⟩
  · rw [if_neg fun hand => heq hand.1]
    exact h.past r hr (by omega) hne

/-- The next row goes up. -/
theorem March.upload (h : March grant up next none t) (hlt : next < t.fileCount)
    (hs : (t.entry next).status = .waiting) : March grant (up ++ [next]) (next + 1) (some next)
      (t.setFileStatus next .transferring []) := by
  obtain ⟨htoken, hgranted, hahead⟩ := h.beyond (Nat.lt_succ_self next) (Nat.le_succ next)
    .transferring []
  refine ⟨?_, fun r hr => ?_, htoken, fun r hr => ?_, fun r hr => by cases hr; simp,
    fun r hr hnext hne => ?_, hahead⟩
  · rw [List.pairwise_append]
    refine ⟨h.increasing, List.pairwise_singleton _ _, fun r hr r' hr' => ?_⟩
    rw [List.mem_singleton.1 hr']
    exact h.below r hr
  · rcases List.mem_append.1 hr with hr | hr
    · exact Nat.lt_succ_of_lt (h.below r hr)
    · exact Nat.lt_succ_of_le (Nat.le_of_eq (List.mem_singleton.1 hr))
  · rcases List.mem_append.1 hr with hr | hr
    · exact hgranted r hr
    · rw [List.mem_singleton.1 hr, (token_setFileStatus _ _ _ _ _).1,
        TransferModel.fileCount_setFileStatus]
      rcases h.ahead next hlt (Nat.le_refl _) with hw | hw
      · exact ⟨hlt, hw.2⟩
      · cases hs.symm.trans hw.1
  · rw [TransferModel.fileCount_setFileStatus] at hr
    have hneq : r ≠ next := fun heq => hne (by rw [heq])
    rw [TransferModel.entry_setFileStatus, if_neg fun hand => hneq hand.1]
    obtain ⟨hover, htried⟩ := h.past r hr (by omega) nofun
    exact ⟨hover, fun htoken => (htried htoken).imp_left (List.mem_append_left _)⟩

/-- The current row is done, or has failed. -/
theorem March.settled (h : March grant up (row + 1) (some row) t) {s : FileStatus}
    (hs : s ≠ .waiting ∧ s ≠ .transferring) (e : QString) :
    March grant up (row + 1) none (t.setFileStatus row s e) := by
  obtain ⟨htoken, hgranted, hahead⟩ := h.beyond (Nat.lt_succ_self row) (Nat.le_refl _) s e
  refine ⟨h.increasing, h.below, htoken, hgranted, nofun, fun r hr hnext _ => ?_, hahead⟩
  rw [TransferModel.fileCount_setFileStatus] at hr
  rw [TransferModel.entry_setFileStatus]
  by_cases heq : r = row
  · subst heq
    rw [if_pos ⟨rfl, hr⟩]
    exact ⟨hs, fun _ => .inl (h.counted r rfl)⟩
  · rw [if_neg fun hand => heq hand.1]
    exact h.past r hr hnext fun hsome => heq (Option.some.inj hsome).symm

/-- All rows that wait are the next ones. -/
theorem March.untouched (h : March grant up next none t) :
    ∀ f ∈ t.files, f.status ≠ .transferring := by
  rw [TransferModel.forall_files]
  intro r hr
  by_cases hnext : r < next
  · exact (h.past r hr hnext nofun).through.2
  · rcases h.ahead r hr (Nat.le_of_not_lt hnext) with hw | hw
    · simp [hw.1]
    · simp [hw.1]

end

/-! ## The service -/

/-- Each row has what was granted, and is accounted for. -/
def Served (grant : QString → QString) (w : Sender) : Prop :=
  ∀ row < w.transfer.fileCount, (w.transfer.entry row).token = grant (w.transfer.entry row).id ∧
    Accounted (uploads w.log) row (w.transfer.entry row)

/-- The transfer goes on with a row, or is over and every row is accounted for. -/
inductive Onward (grant : QString → QString) (w v : Sender) : Prop
  | goes : Goes w v → Climbs grant v → Onward grant w v
  | ends : Ends w v → Closed v → Served grant v → Onward grant w v

section
variable {grant : QString → QString} {next row : Nat}

theorem Onward.congr (h : Onward grant u v) (hsignals : u.signals = w.signals)
    (hbegun : begun u.log = begun w.log) : Onward grant w v := by
  cases h with
  | goes hgoes hclimbs => exact .goes (hgoes.congr hsignals hbegun) hclimbs
  | ends hends hclosed hserved => exact .ends (hends.congr hsignals hbegun) hclosed hserved

theorem March.climbs (h : March grant (uploads w.log) next none w.transfer)
    (hb : w.service.busy = true) (hrow : w.service.currentRow = some next)
    (hlt : next < w.transfer.fileCount) (hs : (w.transfer.entry next).status = .waiting)
    (content : QByteArray) :
    Goes w (w.uploadRow next content) ∧ Climbs grant (w.uploadRow next content) := by
  have hlog : (w.uploadRow next content).log = w.log ++ [⟨w.known, w.settings.isEncrypted,
      .posted (requestTo w.service.peer (.fileBytes w.service.sessionId (w.transfer.entry next).id
        (w.transfer.entry next).token (w.transfer.entry next).size content) (.uploaded next))⟩] := rfl
  refine ⟨⟨hb, rfl, ?_⟩, hb, by rintro ⟨⟩, next, hrow, ?_⟩
  · rw [hlog, begun_concat]
    rfl
  · rw [hlog, uploads_concat]
    exact h.upload hlt hs

variable [Qt]

theorem completeTransfer_left (w : Sender) : Left w w.completeTransfer := by
  unfold completeTransfer
  extract_lets done total v peer u
  have hv : Holds w v := by
    simp only [v]
    split_ifs
    · exact setState_holds _ _ w
    · exact setState_holds _ _ w
    · exact setState_holds _ _ w
  have hu : Holds v u := by
    simp only [u]
    split
    · exact ⟨rfl, rfl, rfl, rfl⟩
    · exact .refl v
  exact ((hv.trans hu).trans (writeHistory_holds u)).leave _ _

theorem March.complete (h : March grant (uploads w.log) next none w.transfer)
    (hf : w.service.currentFile = none) (hnext : w.transfer.fileCount ≤ next) :
    Onward grant w w.completeTransfer := by
  have hleft := completeTransfer_left w
  have hpast : ∀ row < w.transfer.fileCount, Accounted (uploads w.log) row (w.transfer.entry row) :=
    fun row hrow => h.past row hrow (Nat.lt_of_lt_of_le hrow hnext) nofun
  refine .ends hleft.ends (hleft.closed ?_ hf) fun row hrow => ?_
  · rw [TransferModel.forall_files]
    exact fun row hrow => (hpast row hrow).through
  · have hentry : w.completeTransfer.transfer.entry row = w.transfer.entry row := by
      rw [TransferModel.entry, hleft.files, TransferModel.entry]
    have hcount : w.completeTransfer.transfer.fileCount = w.transfer.fileCount := by
      rw [TransferModel.fileCount, hleft.files, TransferModel.fileCount]
    rw [hcount] at hrow
    rw [hentry, hleft.log]
    exact ⟨h.token row hrow, hpast row hrow⟩

theorem March.startRows {rows : List Nat} (h : March grant (uploads w.log) next none w.transfer)
    (hrows : rows = (List.range w.transfer.fileCount).drop next) (hb : w.service.busy = true)
    (hf : w.service.currentFile = none) : Onward grant w (startRows rows w) := by
  induction rows generalizing w next with
  | nil =>
    refine h.complete hf ?_
    simpa using List.drop_eq_nil_iff.1 hrows.symm
  | cons row rows ih =>
    have hlt : next < w.transfer.fileCount := by
      by_contra hge
      rw [List.drop_eq_nil_of_le (by simpa using hge)] at hrows
      cases hrows
    rw [List.drop_eq_getElem_cons (by simpa using hlt), List.getElem_range] at hrows
    obtain ⟨rfl, hrest⟩ := List.cons.inj hrows
    unfold Sender.startRows
    split
    · rename_i hs
      exact ih (h.skip hlt hs) hrest hb hf
    · rename_i hs
      extract_lets s v
      have hv : March grant (uploads v.log) row none v.transfer := h
      split
      · obtain ⟨hgoes, hclimbs⟩ := hv.climbs hb rfl hlt (not_not.1 hs) _
        exact .goes (hgoes.congr rfl rfl) hclimbs
      · set u := v.setFileStatus row .failed (str "Could not open the file") with hu
        have hnext : March grant (uploads u.log) (row + 1) none u.transfer := hv.unopened hlt
        refine (ih hnext ?_ hb hf).congr rfl rfl
        rw [hrest, hu, setFileStatus, TransferModel.fileCount_setFileStatus]

theorem startNextFile_onward (hmarch : March grant (uploads w.log) next none w.transfer)
    (hnext : next = match w.service.currentRow with
      | some row => row + 1
      | none => 0)
    (hb : w.service.busy = true) (hc : w.service.cancelled = false) :
    Onward grant w w.startNextFile := by
  unfold startNextFile
  extract_lets v next'
  have hvc : v.service.cancelled = false := hc
  rw [if_neg (by rw [hvc]; exact Bool.false_ne_true)]
  have hv : March grant (uploads v.log) next none v.transfer := hmarch
  refine (hv.startRows ?_ hb rfl).congr rfl rfl
  rw [hnext]
  rfl

/-! ## What the receiver answers -/

/-- The tokens of an answer, which has none without a session. -/
def grants (body : QByteArray) : QJsonObject :=
  match Qt.fromJson body with
  | some response =>
    if (response.value (str "sessionId")).toString [] = [] then []
    else (response.value (str "files")).toObject
  | none => []

/-- The answer to the file list leaves nothing to be sent. -/
def TakesNothing (w : Sender) (status : Nat) (body : QByteArray) : Prop :=
  status = 204 ∨ status = 403 ∨
    status = 200 ∧ grants body ≠ [] ∧ ∀ f ∈ w.transfer.files, tokenFor (grants body) f.id = []

omit [Qt] in
/-- The rows whose files are taken wait to go up, the others are skipped. -/
theorem takeTokens_march (h : ∀ f ∈ w.transfer.files, f.status = .waiting ∧ f.token = [])
    (tokens : QJsonObject) : March (tokenFor tokens) [] 0 none (w.takeTokens tokens).2.transfer := by
  obtain ⟨hcount, hentry, -⟩ := takeTokens_rows tokens w
  have htaken : ∀ row < w.transfer.fileCount,
      (taken tokens (w.transfer.entry row)).token = tokenFor tokens (w.transfer.entry row).id ∧
      ((taken tokens (w.transfer.entry row)).status = .waiting ∧
          (taken tokens (w.transfer.entry row)).token ≠ [] ∨
        (taken tokens (w.transfer.entry row)).status = .skipped ∧
          (taken tokens (w.transfer.entry row)).token = []) := by
    intro row hrow
    obtain ⟨hs, htoken⟩ := TransferModel.forall_files.1 h row hrow
    by_cases hf : tokenFor tokens (w.transfer.entry row).id = []
    · simp [taken, hf, TransferModel.settle, htoken]
    · simp [taken, hf, hs]
  refine ⟨.nil, by simp, fun row hrow => ?_, by simp, by simp, by simp, fun row hrow _ => ?_⟩
  · rw [hcount] at hrow
    rw [hentry row hrow, taken_id]
    exact (htaken row hrow).1
  · rw [hcount] at hrow
    rw [hentry row hrow]
    exact (htaken row hrow).2

omit [Qt] in
/-- The transfer fails before any file was taken. -/
theorem failTransfer_asked (h : ∀ f ∈ w.transfer.files, f.status = .waiting ∧ f.token = [])
    (message : QString) : Ends w (w.failTransfer message) ∧ Closed (w.failTransfer message) ∧
      Served (tokenFor []) (w.failTransfer message) := by
  obtain ⟨hends, hclosed⟩ := failTransfer_ends (fun f hf => by simp [(h f hf).1]) message
  have hfiles := failTransfer_files message w
  obtain ⟨hcount, -⟩ := skipRows_entry (· = .waiting) w.closeCurrentFile 0
  refine ⟨hends, hclosed, fun row hrow => ?_⟩
  rw [TransferModel.fileCount, hfiles] at hrow
  have hlt : row < w.transfer.fileCount := hcount ▸ hrow
  obtain ⟨hs, hnone⟩ := TransferModel.forall_files.1 h row hlt
  obtain ⟨-, hentry⟩ := skipRows_entry (· = .waiting) w.closeCurrentFile row
  have hskipped : (w.failTransfer message).transfer.entry row =
      TransferModel.settle (w.transfer.entry row) .skipped [] := by
    rw [TransferModel.entry, hfiles]
    exact hentry.trans (if_pos ⟨hlt, decide_eq_true hs⟩)
  have htoken : ((w.failTransfer message).transfer.entry row).token = [] := by
    rw [hskipped]
    exact hnone
  refine ⟨htoken.trans rfl, ?_, fun hne => absurd htoken hne⟩
  rw [hskipped]
  simp [TransferModel.settle]

theorem onAccepted_phase (h : Asks w) (hc : w.service.cancelled = false) (body : QByteArray) :
    Ends w (w.onAccepted body) ∧ ¬ Closed (w.onAccepted body) ∧
        Served (tokenFor (grants body)) (w.onAccepted body) ∧ w.TakesNothing 200 body ∨
      Onward (tokenFor (grants body)) w (w.onAccepted body) ∧ ¬ w.TakesNothing 200 body := by
  have nothing : grants body = [] → ¬ w.TakesNothing 200 body := by
    rintro hnil (h200 | h200 | ⟨-, hne, -⟩)
    · cases h200
    · cases h200
    · exact hne hnil
  unfold onAccepted
  extract_lets unreadable
  split
  · rename_i hjson
    have hnil : grants body = [] := by simp [grants, hjson]
    obtain ⟨hends, hclosed, hserved⟩ := failTransfer_asked h.rows unreadable
    exact .inr ⟨.ends hends hclosed (hnil ▸ hserved), nothing hnil⟩
  · rename_i response hjson
    extract_lets sessionId tokens v
    have hgrants : grants body = if sessionId = [] then [] else tokens := by
      simp only [grants, hjson]
      rfl
    split
    · rename_i hbad
      have hnil : grants body = [] := by
        rw [hgrants]
        rcases hbad with hbad | hbad
        · rw [if_pos hbad]
        · rw [hbad, ite_self]
      obtain ⟨hends, hclosed, hserved⟩ := failTransfer_asked (w := v) h.rows unreadable
      exact .inr ⟨.ends (hends.congr rfl rfl) hclosed (hnil ▸ hserved), nothing hnil⟩
    · rename_i hgood
      obtain ⟨hsession, htokens⟩ := not_or.1 hgood
      rw [if_neg hsession] at hgrants
      rw [hgrants]
      have hmarch := takeTokens_march (w := v) h.rows tokens
      obtain ⟨hcount, hentry, hzero⟩ := takeTokens_rows tokens v
      have hsame := takeTokens_eq tokens v
      rcases hu : v.takeTokens tokens with ⟨accepted, u⟩
      rw [hu] at hmarch hcount hentry hzero hsame
      simp only at hmarch hcount hentry hzero hsame ⊢
      have hiff : accepted = 0 ↔ w.TakesNothing 200 body := by
        rw [hzero, TakesNothing, hgrants, TransferModel.forall_files]
        simp [htokens]
        rfl
      have hservice : u.service = v.service := by rw [hsame]
      have hlog : u.log = w.log := by rw [hsame]
      have hsignals : u.signals = w.signals := by rw [hsame]
      split
      · rename_i hnone
        have hends := quit_ends .finished (str "finished") u
        refine .inl ⟨hends.congr hsignals (congrArg begun hlog), fun hclosed => hsession ?_, ?_,
          hiff.1 hnone⟩
        · have hs := hclosed.session
          simp only [quit, setState, signal, hservice] at hs
          exact hs
        · intro row hrow
          simp only [quit, setState, signal, TransferModel.fileCount_setState,
            TransferModel.entry_setState] at hrow ⊢
          have htoken := hmarch.token row hrow
          have hnil : (u.transfer.entry row).token = [] := by
            rw [htoken, hentry row (hcount ▸ hrow), taken_id]
            exact hzero.1 hnone row (hcount ▸ hrow)
          have hs := (hmarch.ahead row hrow (Nat.zero_le row)).resolve_left fun hand => hand.2 hnil
          exact ⟨htoken, by simp [hs.1], fun hne => absurd hnil hne⟩
      · rename_i hsome
        refine .inr ⟨?_, fun hnothing => hsome (hiff.2 hnothing)⟩
        have hactive : March (tokenFor tokens) (uploads (u.setState .active []).log) 0 none
            (u.setState .active []).transfer := by
          have huploads : uploads (u.setState .active []).log = [] := by
            rw [← h.uploads, ← hlog]
            rfl
          rw [huploads]
          refine hmarch.congr (TransferModel.fileCount_setState _ _ _) fun row => ?_
          exact ⟨(u.transfer.entry row).transferred, TransferModel.entry_setState _ _ _ _⟩
        have honward := startNextFile_onward (w := { u.setState .active [] with
          service := { u.service with currentRow := none } }) hactive rfl
          (by rw [hservice]; exact h.busy) (by rw [hservice]; exact hc)
        exact honward.congr hsignals (congrArg begun hlog)

/-- What has become of a transfer whose file list was answered. -/
inductive Answered (w : Sender) (status : Nat) (body : QByteArray) (v : Sender) : Prop
  | onward : status = 200 → Onward (tokenFor (grants body)) w v → ¬ w.TakesNothing status body →
    Answered w status body v
  | nothing : Ends w v → ¬ Closed v → (status = 200 → Served (tokenFor (grants body)) v) →
    w.TakesNothing status body → Answered w status body v
  | fails : status ≠ 200 → Ends w v → Closed v → ¬ w.TakesNothing status body →
    Answered w status body v
  | prompts (retry : Bool) : status ≠ 200 → Asks v → v.service.reply = none →
    v.signals = w.signals ++ [.pinRequired retry] → begun v.log = begun w.log →
      ¬ w.TakesNothing status body → Answered w status body v

omit [Qt] in
theorem Asks.forgetReply (h : Asks w) (id : ReplyId) : Asks (w.forgetReply id) := by
  unfold Sender.forgetReply
  split
  · exact ⟨h.busy, h.files, h.rows, h.uploads, h.session, h.file, h.slots⟩
  · exact h

omit [Qt] in
/-- A transfer that is left while it asks leaves its rows behind. -/
theorem Asks.quit_open (h : Asks w) (state : TransferState) (status : QString) :
    ¬ Closed (w.quit state status) := by
  obtain ⟨f, hf⟩ := List.exists_mem_of_ne_nil _ h.files
  have hfiles : (w.quit state status).transfer.files = w.transfer.files :=
    TransferModel.files_setState _ _ _
  exact fun hclosed => (hclosed.rows f (hfiles ▸ hf)).1 (h.rows f hf).1

theorem onPrepareFinished_phase (h : Asks w) (hc : w.service.cancelled = false) {id : ReplyId}
    (hid : w.service.reply = some id) (error : Bool) (status : Nat) (body : QByteArray) :
    Answered w status body (w.onPrepareFinished id error status body) := by
  unfold onPrepareFinished
  extract_lets v aliasName
  have hv : Asks v := h.forgetReply id
  have hsame : v = { w with service := { w.service with reply := none } } := if_pos hid
  have hvc : v.service.cancelled = false := by rw [hsame]; exact hc
  have hsignals : v.signals = w.signals := by rw [hsame]
  have hbegun : begun v.log = begun w.log := by rw [hsame]
  have fails : ∀ message, Ends w (v.failTransfer message) ∧ Closed (v.failTransfer message) := by
    intro message
    obtain ⟨hends, hclosed⟩ := failTransfer_ends (fun f hf => by simp [(hv.rows f hf).1]) message
    exact ⟨hends.congr hsignals hbegun, hclosed⟩
  have other : status ≠ 200 → status ≠ 204 → status ≠ 403 → ¬ w.TakesNothing status body := by
    rintro h200 h204 h403 (hs | hs | hs)
    · exact h204 hs
    · exact h403 hs
    · exact h200 hs.1
  rw [if_neg (by rw [hvc]; exact Bool.false_ne_true)]
  split
  · rename_i hunreached
    have hs := hunreached.2
    obtain ⟨hends, hclosed⟩ := fails (str "Could not reach " ++ aliasName)
    exact .fails (by omega) hends hclosed (other (by omega) (by omega) (by omega))
  · split
    · have htakes : v.TakesNothing 200 body ↔ w.TakesNothing 200 body := by rw [hsame]; rfl
      rcases onAccepted_phase hv hvc body with ⟨hends, hopen, hserved, hnothing⟩ | ⟨honward, hsome⟩
      · exact .nothing (hends.congr hsignals hbegun) hopen (fun _ => hserved) (htakes.1 hnothing)
      · exact .onward rfl (honward.congr hsignals hbegun) fun hnothing => hsome (htakes.2 hnothing)
    · have hends := (quit_ends .finished (str "finished") v).congr hsignals hbegun
      exact .nothing hends (hv.quit_open _ _) nofun (.inl rfl)
    · have hrows : (v.setState .idle []).transfer.files = v.transfer.files :=
        TransferModel.files_setState _ _ _
      refine .prompts v.service.pinAttempted (by decide) ?_ (by rw [hsame]; rfl)
        (congrArg (· ++ _) hsignals) hbegun (other (by decide) (by decide) (by decide))
      exact ⟨hv.busy, fun hnil => hv.files (hrows ▸ hnil), fun f hf => hv.rows f (hrows ▸ hf),
        hv.uploads, hv.session, hv.file, hv.slots⟩
    · have hdeclined : Asks (v.signal .declined) :=
        ⟨hv.busy, hv.files, hv.rows, hv.uploads, hv.session, hv.file, hv.slots⟩
      refine .nothing ⟨rfl, ⟨[.declined], str "declined", 0, ?_, ?_⟩, hbegun⟩
        (hdeclined.quit_open _ _) nofun (.inr (.inl rfl))
      · simp
      · rw [← hsignals]
        exact List.append_assoc _ _ _
    · obtain ⟨hends, hclosed⟩ := fails (aliasName ++ str " is busy with another transfer")
      exact .fails (by decide) hends hclosed (other (by decide) (by decide) (by decide))
    · obtain ⟨hends, hclosed⟩ := fails (aliasName ++ str " is refusing new requests")
      exact .fails (by decide) hends hclosed (other (by decide) (by decide) (by decide))
    · rename_i h200 h204 _ h403 _ _
      obtain ⟨hends, hclosed⟩ := fails (aliasName ++ str " refused the transfer (" ++
        QString.number status ++ str ")")
      exact .fails h200 hends hclosed (other h200 h204 h403)

/-- An upload is finished: the next row, unless the session is gone. -/
theorem onUploadFinished_phase {grant : QString → QString} (h : Climbs grant w)
    (hc : w.service.cancelled = false) (id : ReplyId) (error : Bool) (status : Nat)
    (errorString : QString) :
    (status ≠ 409 → Onward grant w (w.onUploadFinished id error status errorString)) ∧
      (status = 409 → Ends w (w.onUploadFinished id error status errorString) ∧
        Closed (w.onUploadFinished id error status errorString)) := by
  obtain ⟨row, hrow, hmarch⟩ := h.march
  unfold onUploadFinished
  extract_lets v
  have hv : Noted w v := forgetReply_noted id w
  have hvb : v.service.busy = true := (forgetReply_busy id w).trans h.busy
  have hvc : v.service.cancelled = false := hv.cancelled.trans hc
  have hvrow : v.service.currentRow = some row ∧ v.transfer = w.transfer ∧ v.signals = w.signals := by
    simp only [v, forgetReply]
    split <;> exact ⟨hrow, rfl, rfl⟩
  obtain ⟨hvrow, htransfer, hsignals⟩ := hvrow
  have hbegun : begun v.log = begun w.log := congrArg begun hv.log
  have hsettle : ∀ fileStatus message,
      v.settleCurrent fileStatus message = v.setFileStatus row fileStatus message := by
    intro fileStatus message
    unfold settleCurrent
    rw [hvrow]
  have settled : ∀ fileStatus message, fileStatus ≠ .waiting ∧ fileStatus ≠ .transferring →
      March grant (uploads (v.setFileStatus row fileStatus message).log) (row + 1) none
        (v.setFileStatus row fileStatus message).transfer := by
    intro fileStatus message hs
    rw [setFileStatus, htransfer, hv.log]
    exact hmarch.settled hs message
  have next : ∀ fileStatus message, fileStatus ≠ .waiting ∧ fileStatus ≠ .transferring →
      Onward grant w (v.settleCurrent fileStatus message).startNextFile := by
    intro fileStatus message hs
    rw [hsettle]
    refine (startNextFile_onward (settled fileStatus message hs) ?_ hvb hvc).congr hsignals hbegun
    simp only [setFileStatus, hvrow]
  rw [if_neg (by rw [hvc]; exact Bool.false_ne_true)]
  split
  · exact ⟨fun _ => next _ _ (by decide), fun h409 => by omega⟩
  · split
    · rename_i h409
      have hm := settled .failed (str "The transfer was stopped") (by decide)
      obtain ⟨hends, hclosed⟩ := failTransfer_ends hm.untouched
        (v.service.peer.aliasName ++ str " stopped the transfer")
      rw [hsettle]
      exact ⟨fun hne => absurd h409 hne, fun _ => ⟨hends.congr hsignals hbegun, hclosed⟩⟩
    · exact ⟨fun _ => next _ _ (by decide), fun h409 => by contradiction⟩

end

end LocalSend.Sender
