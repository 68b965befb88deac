import LocalSend.Send.Proof.Uploads

/-!
# How a transfer begins and ends

A transfer asks first: no row has a token (`Asks`). It goes on (`Goes`) until it is over (`Ends`):
`finished` is emitted then, once. Most of the ways it can end leave nothing open (`Closed`).

What went up and how many transfers there were is read from the log (`uploads`, `begun`).
-/

set_option autoImplicit false

namespace LocalSend

/-- The file list that opens a transfer, which is the one without a PIN. -/
def Outbound.begins : Outbound → Bool
  | .posted ⟨_, _, _, _, .fileList [] _, .prepared⟩ => true
  | _ => false

/-- The row an upload is of. -/
def Outbound.row? : Outbound → Option Nat
  | .posted ⟨_, _, _, _, _, .uploaded row⟩ => some row
  | _ => none

def TransferSignal.isFinished : TransferSignal → Bool
  | .finished .. => true
  | _ => false

/-- What is none of a transfer's business does not count. -/
theorem Outbound.unrelated {o : Outbound} (h : ∀ q, o = .posted q → q.slot.isTransfer = false) :
    o.begins = false ∧ o.row? = none := by
  cases o with
  | posted q =>
    obtain ⟨_, _, _, _, content, slot⟩ := q
    cases slot with
    | prepared => cases h _ rfl
    | uploaded row => cases h _ rfl
    | _ =>
      refine ⟨?_, rfl⟩
      unfold Outbound.begins
      split
      · rename_i heq
        cases heq
      · rfl
  | _ => exact ⟨rfl, rfl⟩

namespace Sender

/-- The rows that went up since a transfer was begun. -/
def uploads (log : List LogEntry) : List Nat :=
  log.foldl (fun rows e => if e.what.begins then [] else rows ++ e.what.row?.toList) []

/-- How many transfers were begun. -/
def begun (log : List LogEntry) : Nat := log.countP (·.what.begins)

/-- How many times `finished` was emitted. -/
def finishes (w : Sender) : Nat := w.signals.countP (·.isFinished)

/-- Nothing of the transfer is left open. -/
structure Closed (w : Sender) : Prop where
  rows : ∀ f ∈ w.transfer.files, f.status ≠ .waiting ∧ f.status ≠ .transferring
  file : w.service.currentFile = none
  session : w.service.sessionId = []

/-- The receiver has not said yet what it takes. -/
structure Asks (w : Sender) : Prop where
  busy : w.service.busy = true
  files : w.transfer.files ≠ []
  rows : ∀ f ∈ w.transfer.files, f.status = .waiting ∧ f.token = []
  uploads : uploads w.log = []
  session : w.service.sessionId = []
  file : w.service.currentFile = none
  slots : ∀ id r row, w.replies id = some r → r.request.slot ≠ .uploaded row

/-- The transfer goes on. -/
structure Goes (w v : Sender) : Prop where
  busy : v.service.busy = true
  signals : v.signals = w.signals
  begun : begun v.log = begun w.log

/-- The transfer is over. -/
structure Ends (w v : Sender) : Prop where
  busy : v.service.busy = false
  signals : ∃ before status files, (∀ s ∈ before, s = .declined) ∧
    v.signals = w.signals ++ (before ++ [.finished status files])
  begun : begun v.log = begun w.log

/-! ## The ghosts -/

@[simp] theorem uploads_concat (log : List LogEntry) (e : LogEntry) : uploads (log ++ [e]) =
    if e.what.begins then [] else uploads log ++ e.what.row?.toList := by simp [uploads]

@[simp] theorem begun_concat (log : List LogEntry) (e : LogEntry) :
    begun (log ++ [e]) = begun log + if e.what.begins then 1 else 0 := by
  cases h : e.what.begins <;> simp [begun, h]

theorem uploads_append {log l : List LogEntry}
    (h : ∀ e ∈ l, e.what.begins = false ∧ e.what.row? = none) :
    uploads (log ++ l) = uploads log ∧ begun (log ++ l) = begun log := by
  induction l using List.reverseRecOn with
  | nil => simp
  | append_singleton l e ih =>
    obtain ⟨hbegins, hrow⟩ := h e (by simp)
    obtain ⟨hu, hb⟩ := ih fun d hd => h d (by simp [hd])
    simp only [← List.append_assoc, uploads_concat, begun_concat, hbegins, hrow, hu, hb]
    simp

theorem Aside.counts {A : Outbound → Prop} {w v : Sender} (h : Aside A w v)
    (hA : ∀ q, A (.posted q) → q.slot.isTransfer = false) :
    uploads v.log = uploads w.log ∧ begun v.log = begun w.log := by
  obtain ⟨l, hl, hentries⟩ := h.log
  rw [hl]
  exact uploads_append fun e he => Outbound.unrelated fun q hq => hA q (hq ▸ (hentries e he).1)

/-! ## How a transfer ends -/

/-- The rows, the service, what was sent and what was emitted stay as they are. -/
structure Holds (w v : Sender) : Prop where
  files : v.transfer.files = w.transfer.files
  service : v.service = w.service
  log : v.log = w.log
  signals : v.signals = w.signals

/-- The service is left with the rows as they are. -/
structure Left (w v : Sender) : Prop where
  files : v.transfer.files = w.transfer.files
  log : v.log = w.log
  busy : v.service.busy = false
  session : v.service.sessionId = []
  file : v.service.currentFile = w.service.currentFile
  signals : ∃ status files, v.signals = w.signals ++ [.finished status files]

variable {u v w : Sender}

theorem Ends.congr (h : Ends u v) (hsignals : u.signals = w.signals)
    (hbegun : Sender.begun u.log = Sender.begun w.log) : Ends w v where
  busy := h.busy
  signals := hsignals ▸ h.signals
  begun := h.begun.trans hbegun

theorem Goes.congr (h : Goes u v) (hsignals : u.signals = w.signals)
    (hbegun : Sender.begun u.log = Sender.begun w.log) : Goes w v where
  busy := h.busy
  signals := h.signals.trans hsignals
  begun := h.begun.trans hbegun

theorem Ends.finishes (h : Ends w v) : v.finishes = w.finishes + 1 := by
  obtain ⟨before, status, files, hbefore, hsignals⟩ := h.signals
  have hnone : before.countP (·.isFinished) = 0 := List.countP_eq_zero.2 fun s hs => by
    rw [hbefore s hs]
    exact Bool.false_ne_true
  rw [Sender.finishes, hsignals, List.countP_append, List.countP_append, hnone, Nat.zero_add]
  rfl

theorem Holds.refl (w : Sender) : Holds w w := ⟨rfl, rfl, rfl, rfl⟩

theorem Holds.trans (h : Holds u v) (h' : Holds v w) : Holds u w where
  files := h'.files.trans h.files
  service := h'.service.trans h.service
  log := h'.log.trans h.log
  signals := h'.signals.trans h.signals

theorem setState_holds (state : TransferState) (error : QString) (w : Sender) :
    Holds w (w.setState state error) := ⟨TransferModel.files_setState _ _ _, rfl, rfl, rfl⟩

theorem generateToken_holds (w : Sender) : Holds w w.generateToken.2 := ⟨rfl, rfl, rfl, rfl⟩

theorem fileEntries_holds (i : Nat) (paths : List QString) (w : Sender) :
    Holds w (fileEntries i paths w).2 := by
  induction paths generalizing i w with
  | nil => exact .refl w
  | cons path paths ih =>
    unfold fileEntries
    cases w.files path with
    | none => exact ih (i + 1) w
    | some file => exact (generateToken_holds w).trans (ih (i + 1) _)

theorem writeHistory_holds (w : Sender) : Holds w w.writeHistory := by
  unfold writeHistory
  split
  · exact .refl w
  · have hid : Holds w (if w.service.sessionId = [] then w.generateToken
        else (w.service.sessionId, w)).2 := by
      split
      · exact generateToken_holds w
      · exact .refl w
    rcases hv : (if w.service.sessionId = [] then w.generateToken
      else (w.service.sessionId, w)) with ⟨token, v⟩
    rw [hv] at hid
    simp only
    split
    · exact hid
    · exact hid.trans ⟨rfl, rfl, rfl, rfl⟩

theorem Holds.leave (h : Holds w v) (status : QString) (files : Nat) :
    Left w (v.leave status files) where
  files := h.files
  log := h.log
  busy := rfl
  session := rfl
  file := by
    show v.service.currentFile = _
    rw [h.service]
  signals := ⟨status, files, congrArg (· ++ _) h.signals⟩

theorem record_left (status : QString) (files : Nat) (w : Sender) :
    Left w ((if w.transfer.completedCount > 0 then w.writeHistory else w).leave status files) := by
  split
  · exact (writeHistory_holds w).leave _ _
  · exact (Holds.refl w).leave _ _

theorem Left.ends (h : Left w v) : Ends w v where
  busy := h.busy
  signals := by
    obtain ⟨status, files, hsignals⟩ := h.signals
    exact ⟨[], status, files, nofun, hsignals⟩
  begun := by rw [h.log]

theorem Left.closed (h : Left w v)
    (hrows : ∀ f ∈ w.transfer.files, f.status ≠ .waiting ∧ f.status ≠ .transferring)
    (hfile : w.service.currentFile = none) : Closed v where
  rows f hf := hrows f (h.files ▸ hf)
  file := h.file.trans hfile
  session := h.session

/-- The statuses and the errors are changed, nothing else. -/
theorem foldl_rows {α : Type} {f : Sender → α → Sender}
    (hf : ∀ w a, f w a = { w with transfer := (f w a).transfer }) (l : List α) (w : Sender) :
    l.foldl f w = { w with transfer := (l.foldl f w).transfer } := by
  induction l generalizing w with
  | nil => rfl
  | cons a l ih =>
    rw [List.foldl_cons, ih (f w a), hf w a]

theorem skipRows_eq (p : FileStatus → Bool) (w : Sender) :
    w.skipRows p = { w with transfer := (w.skipRows p).transfer } := by
  refine foldl_rows (fun w row => ?_) _ w
  split <;> rfl

theorem skipRows_entry (p : FileStatus → Bool) (w : Sender) (row : Nat) :
    (w.skipRows p).transfer.fileCount = w.transfer.fileCount ∧
      (w.skipRows p).transfer.entry row =
        if row < w.transfer.fileCount ∧ p (w.transfer.entry row).status then
          TransferModel.settle (w.transfer.entry row) .skipped [] else w.transfer.entry row := by
  unfold skipRows
  have hfold : ∀ (rows : List Nat) (w : Sender),
      (rows.foldl (fun w row => if p (w.transfer.entry row).status then
        w.setFileStatus row .skipped [] else w) w).transfer.fileCount = w.transfer.fileCount ∧
      (rows.foldl (fun w row => if p (w.transfer.entry row).status then
        w.setFileStatus row .skipped [] else w) w).transfer.entry row =
        if row ∈ rows ∧ row < w.transfer.fileCount ∧ p (w.transfer.entry row).status then
          TransferModel.settle (w.transfer.entry row) .skipped [] else w.transfer.entry row := by
    intro rows
    induction rows with
    | nil => simp
    | cons r rows ih =>
      intro w
      rw [List.foldl_cons, (ih _).1, (ih _).2]
      by_cases hp : p (w.transfer.entry r).status = true
      · simp only [hp, if_true, setFileStatus, TransferModel.fileCount_setFileStatus,
          TransferModel.entry_setFileStatus, true_and, List.mem_cons]
        by_cases hr : row = r
        · subst hr
          by_cases hlt : row < w.transfer.fileCount
          · simp [hlt, hp, TransferModel.settle]
          · simp [hlt]
        · simp [hr]
      · by_cases hr : row = r
        · subst hr
          simp [hp]
        · simp [hp, hr]
  obtain ⟨hcount, hentry⟩ := hfold (List.range w.transfer.fileCount) w
  refine ⟨hcount, hentry.trans ?_⟩
  simp

/-- Every row the predicate picks is over, the others are what they were. -/
theorem skipRows_over {p : FileStatus → Bool}
    (h : ∀ f ∈ w.transfer.files, p f.status = false → f.status ≠ .waiting ∧ f.status ≠ .transferring) :
    ∀ f ∈ (w.skipRows p).transfer.files, f.status ≠ .waiting ∧ f.status ≠ .transferring := by
  rw [TransferModel.forall_files] at h ⊢
  intro row hrow
  obtain ⟨hcount, hentry⟩ := skipRows_entry p w row
  rw [hcount] at hrow
  rw [hentry]
  by_cases hp : p (w.transfer.entry row).status = true
  · simp [hrow, hp, TransferModel.settle]
  · rw [if_neg (fun hand => hp hand.2)]
    exact h row hrow (eq_false_of_ne_true hp)

theorem failTransfer_ends (h : ∀ f ∈ w.transfer.files, f.status ≠ .transferring)
    (message : QString) : Ends w (w.failTransfer message) ∧ Closed (w.failTransfer message) := by
  unfold failTransfer
  extract_lets v
  have hleft := record_left (str "failed") v.transfer.completedCount v
  have hskip := skipRows_eq (· = .waiting) w.closeCurrentFile
  have hheld : Holds (w.closeCurrentFile.skipRows (· = .waiting)) v := setState_holds _ _ _
  have hover : ∀ f ∈ v.transfer.files, f.status ≠ .waiting ∧ f.status ≠ .transferring := by
    rw [hheld.files]
    refine skipRows_over fun f hf hp => ⟨?_, h f hf⟩
    simpa using hp
  have hsignals : v.signals = w.signals := hheld.signals.trans (by rw [hskip]; rfl)
  have hlog : v.log = w.log := hheld.log.trans (by rw [hskip]; rfl)
  refine ⟨hleft.ends.congr hsignals (congrArg begun hlog), hleft.closed hover ?_⟩
  rw [hheld.service, hskip]
  rfl

theorem failTransfer_files (message : QString) (w : Sender) : (w.failTransfer message).transfer.files =
    (w.closeCurrentFile.skipRows (· = .waiting)).transfer.files := by
  unfold failTransfer
  extract_lets v
  exact (record_left (str "failed") v.transfer.completedCount v).files.trans
    (setState_holds _ _ _).files

theorem cancel_ends (hb : w.service.busy = true) : Ends w w.cancel ∧ Closed w.cancel := by
  unfold cancel
  rw [if_neg (by rw [hb]; exact not_not_intro rfl)]
  extract_lets v
  have hleft := record_left (str "cancelled") v.transfer.completedCount v
  have hskip := skipRows_eq (fun s => s = .waiting ∨ s = .transferring)
    w.abortReply.closeCurrentFile.notifyPeerCancelled
  have hheld : Holds (w.abortReply.closeCurrentFile.notifyPeerCancelled.skipRows
    fun s => s = .waiting ∨ s = .transferring) v := setState_holds _ _ _
  have haborted : w.abortReply.signals = w.signals ∧ w.abortReply.log = w.log := by
    unfold abortReply
    cases w.service.reply <;> exact ⟨rfl, rfl⟩
  have hnotified : w.abortReply.closeCurrentFile.notifyPeerCancelled.signals = w.signals ∧
      begun w.abortReply.closeCurrentFile.notifyPeerCancelled.log = begun w.log ∧
        w.abortReply.closeCurrentFile.notifyPeerCancelled.service.currentFile = none := by
    unfold notifyPeerCancelled
    split
    · exact ⟨haborted.1, congrArg begun haborted.2, rfl⟩
    · refine ⟨haborted.1, (begun_concat _ _).trans ?_, rfl⟩
      exact congrArg begun haborted.2
  have hover : ∀ f ∈ v.transfer.files, f.status ≠ .waiting ∧ f.status ≠ .transferring := by
    rw [hheld.files]
    refine skipRows_over fun f _ hp => ?_
    simpa using hp
  have hsignals : v.signals = w.signals :=
    hheld.signals.trans (by rw [hskip]; exact hnotified.1)
  have hbegun : begun v.log = begun w.log := by
    rw [hheld.log, hskip]
    exact hnotified.2.1
  refine ⟨hleft.ends.congr hsignals hbegun, hleft.closed hover ?_⟩
  rw [hheld.service, hskip]
  exact hnotified.2.2

theorem quit_ends (state : TransferState) (status : QString) (w : Sender) :
    Ends w (w.quit state status) := ⟨rfl, ⟨[], status, 0, nofun, rfl⟩, rfl⟩

/-! ## What the receiver takes -/

/-- The token an answer has for a file. -/
def tokenFor (tokens : QJsonObject) (id : QString) : QString := (tokens.value id).toString []

/-- A row whose file the receiver leaves out is skipped. -/
def taken (tokens : QJsonObject) (f : FileEntry) : FileEntry :=
  if tokenFor tokens f.id = [] then TransferModel.settle f .skipped []
  else { f with token := tokenFor tokens f.id }

theorem takeTokens_eq (tokens : QJsonObject) (w : Sender) :
    (w.takeTokens tokens).2 = { w with transfer := (w.takeTokens tokens).2.transfer } := by
  unfold takeTokens
  generalize List.range w.transfer.fileCount = rows
  generalize 0 = n
  induction rows generalizing n w with
  | nil => rfl
  | cons row rows ih =>
    rw [List.foldl_cons]
    simp only
    split
    · rw [ih]
      rfl
    · rw [ih]

@[simp] theorem taken_id (tokens : QJsonObject) (f : FileEntry) : (taken tokens f).id = f.id := by
  unfold taken
  split <;> rfl

@[simp] theorem taken_taken (tokens : QJsonObject) (f : FileEntry) :
    taken tokens (taken tokens f) = taken tokens f := by
  by_cases h : tokenFor tokens f.id = []
  · simp [taken, h, TransferModel.settle]
  · simp [taken, h]

/-- What `takeTokens` does with one row. -/
def takeRow (tokens : QJsonObject) (x : Nat × Sender) (row : Nat) : Nat × Sender :=
  let token := tokenFor tokens (x.2.transfer.entry row).id
  if token = [] then (x.1, x.2.setFileStatus row .skipped [])
  else (x.1 + 1, { x.2 with transfer := x.2.transfer.setFileToken row token })

theorem takeRow_rows (tokens : QJsonObject) (x : Nat × Sender) {row : Nat}
    (hrow : row < x.2.transfer.fileCount) :
    (takeRow tokens x row).2.transfer.fileCount = x.2.transfer.fileCount ∧
      (∀ row', (takeRow tokens x row).2.transfer.entry row' =
        if row' = row then taken tokens (x.2.transfer.entry row') else x.2.transfer.entry row') ∧
      ((takeRow tokens x row).1 = 0 ↔
        x.1 = 0 ∧ tokenFor tokens (x.2.transfer.entry row).id = []) := by
  unfold takeRow
  by_cases h : tokenFor tokens (x.2.transfer.entry row).id = []
  · refine ⟨by simp [h, setFileStatus], fun row' => ?_, by simp [h]⟩
    simp only [h, if_true, setFileStatus, TransferModel.entry_setFileStatus, hrow, and_true]
    by_cases hr : row' = row
    · subst hr
      simp [taken, h]
    · simp [hr]
  · refine ⟨by simp [h], fun row' => ?_, by simp [h]⟩
    simp only [h, if_false, TransferModel.entry_setFileToken, hrow, and_true]
    by_cases hr : row' = row
    · subst hr
      simp [taken, h]
    · simp [hr]

theorem takeRows_rows (tokens : QJsonObject) (rows : List Nat) (x : Nat × Sender)
    (hrows : ∀ row ∈ rows, row < x.2.transfer.fileCount) :
    (rows.foldl (takeRow tokens) x).2.transfer.fileCount = x.2.transfer.fileCount ∧
      (∀ row, (rows.foldl (takeRow tokens) x).2.transfer.entry row =
        if row ∈ rows then taken tokens (x.2.transfer.entry row) else x.2.transfer.entry row) ∧
      ((rows.foldl (takeRow tokens) x).1 = 0 ↔
        x.1 = 0 ∧ ∀ row ∈ rows, tokenFor tokens (x.2.transfer.entry row).id = []) := by
  induction rows generalizing x with
  | nil => simp
  | cons row rows ih =>
    obtain ⟨hcount, hentry, hzero⟩ := takeRow_rows tokens x (hrows row List.mem_cons_self)
    obtain ⟨hcount', hentry', hzero'⟩ := ih (takeRow tokens x row) fun r hr => by
      rw [hcount]
      exact hrows r (List.mem_cons_of_mem _ hr)
    have hid : ∀ r, ((takeRow tokens x row).2.transfer.entry r).id = (x.2.transfer.entry r).id := by
      intro r
      rw [hentry]
      split <;> simp
    rw [List.foldl_cons]
    refine ⟨hcount'.trans hcount, fun r => ?_, ?_⟩
    · rw [hentry', hentry]
      by_cases hr : r = row
      · simp [hr]
      · simp [hr]
    · rw [hzero', hzero]
      simp only [hid, List.mem_cons, forall_eq_or_imp, and_assoc]

theorem takeTokens_rows (tokens : QJsonObject) (w : Sender) :
    (w.takeTokens tokens).2.transfer.fileCount = w.transfer.fileCount ∧
      (∀ row < w.transfer.fileCount, (w.takeTokens tokens).2.transfer.entry row =
        taken tokens (w.transfer.entry row)) ∧
      ((w.takeTokens tokens).1 = 0 ↔
        ∀ row < w.transfer.fileCount, tokenFor tokens (w.transfer.entry row).id = []) := by
  obtain ⟨hcount, hentry, hzero⟩ := takeRows_rows tokens (List.range w.transfer.fileCount) (0, w)
    fun row hr => List.mem_range.1 hr
  refine ⟨hcount, fun row hrow => ?_, hzero.trans ?_⟩
  · exact (hentry row).trans (if_pos (List.mem_range.2 hrow))
  · simp

end Sender

end LocalSend
