import LocalSend.Receive.Proof.Authority
import Mathlib.Algebra.Order.BigOperators.Group.Finset

/-!
# Rows that are done

A row may be held by several connections at once: nothing refuses a second upload of a file that is
still on its way. What one of them completes, another may then fail or complete again. As long as no
upload arrives while its row is held by another connection (`World.Singly`), a row that is done stays
done and counts (`done_is_final`), and each row takes at most one file (`stored_once`).
-/

set_option autoImplicit false

namespace LocalSend

/-- What may follow `pre` if a row is done only once. -/
def Log.Once (pre : List Effect) : Effect → Prop
  | .fileStatus row _ => row ∉ Log.doneRows pre
  | .stored _ row _ content => row ∉ (Log.storedFiles pre).map Prod.fst ∧
      ∃ a, Log.asked pre = some a ∧ row < a.files.length ∧
        (content.length : Int) ≤ (a.files.getD row default).size
  | .recorded r => ∃ a, Log.asked pre = some a ∧
      r.fileNames = (Log.completed pre a).map fun row => (a.files.getD row default).fileName
  | .transferFinished _ fileCount _ => ∃ a, Log.asked pre = some a ∧
      fileCount = (Log.completed pre a).length
  | _ => True

/-- No row is stored twice. -/
theorem Log.Once.nodup {log : List Effect} (h : Lib.Justified Log.Once log) :
    ((Log.storedFiles log).map Prod.fst).Nodup := by
  induction log using List.reverseRecOn with
  | nil => exact List.nodup_nil
  | append_singleton log e ih =>
    have he := h log e [] rfl
    rw [Log.storedFiles_concat]
    split
    · cases e with
      | stored i row path content =>
        rw [Effect.stored?, Option.toList_some, List.map_append, List.map_singleton,
          ← List.concat_eq_append]
        exact (ih h.of_append).concat he.1
      | _ => simpa [Effect.stored?] using ih h.of_append
    · exact List.nodup_nil

/-- Every file that was stored is one of the request, and no larger than declared. -/
theorem Log.Once.fits {log : List Effect} (h : Lib.Justified Log.Once log) {f : Nat × QByteArray}
    (hf : f ∈ Log.storedFiles log) : ∃ a, Log.asked log = some a ∧ f.1 < a.files.length ∧
      (f.2.length : Int) ≤ (a.files.getD f.1 default).size := by
  induction log using List.reverseRecOn with
  | nil => cases hf
  | append_singleton log e ih =>
    have he := h log e [] rfl
    rw [Log.storedFiles_concat] at hf
    split at hf
    · rename_i hnone
      rw [Log.asked_concat, Option.isNone_iff_eq_none.1 hnone, Option.none_or]
      rcases List.mem_append.1 hf with hf | hf
      · exact ih h.of_append hf
      · cases e with
        | stored i row path content =>
          obtain rfl := List.mem_singleton.1 hf
          exact he.2
        | _ => simp [Effect.stored?] at hf
    · cases hf

/-- Distinct rows, each at most as large as declared, are in all at most as large as declared. -/
theorem sum_le_declared {stored : List (Nat × QByteArray)} {files : List FileEntry}
    (hnodup : (stored.map Prod.fst).Nodup) (hpos : ∀ f ∈ files, 0 ≤ f.size)
    (hfit : ∀ f ∈ stored, f.1 < files.length ∧ (f.2.length : Int) ≤ (files.getD f.1 default).size) :
    (stored.map fun f => (f.2.length : Int)).sum ≤ (files.map FileEntry.size).sum := by
  have hsizes : files.map FileEntry.size =
      (List.range files.length).map fun row => (files.getD row default).size := by
    refine List.ext_getElem (by simp) fun row h₁ h₂ => ?_
    rw [List.length_map] at h₁
    rw [List.getElem_map, List.getElem_map, List.getElem_range, List.getD_eq_getElem _ _ h₁]
  calc (stored.map fun f => (f.2.length : Int)).sum
      ≤ (stored.map fun f => (files.getD f.1 default).size).sum :=
        List.sum_le_sum fun f hf => (hfit f hf).2
    _ = ((stored.map Prod.fst).map fun row => (files.getD row default).size).sum := by
        rw [List.map_map]
        rfl
    _ = ∑ row ∈ (stored.map Prod.fst).toFinset, (files.getD row default).size :=
        (List.sum_toFinset _ hnodup).symm
    _ ≤ ∑ row ∈ Finset.range files.length, (files.getD row default).size := by
        refine Finset.sum_le_sum_of_subset_of_nonneg (fun row hrow => ?_) fun row hrow _ => ?_
        · obtain ⟨f, hf, rfl⟩ := List.mem_map.1 (List.mem_toFinset.1 hrow)
          exact Finset.mem_range.2 (hfit f hf).1
        · have hlt := Finset.mem_range.1 hrow
          rw [List.getD_eq_getElem _ _ hlt]
          exact hpos _ (List.getElem_mem hlt)
    _ = (files.map FileEntry.size).sum := by
        rw [hsizes, ← List.sum_toFinset _ List.nodup_range]
        exact Finset.sum_congr (by ext; simp) fun _ _ => rfl

namespace World

/-- The invariant of runs in which a row is done only once. -/
structure Rows (w : World) : Prop where
  open_ : ∀ j u, w.uploads.lookup j = some u → (w.transfer.entry u.row).status ≠ .done
  done : ∀ row, row ∈ Log.doneRows w.log ↔ (w.transfer.entry row).status = .done
  stored : (Log.storedFiles w.log).map Prod.fst = Log.doneRows w.log
  log : Lib.Justified Log.Once w.log

variable {w v : World}

/-- The rows stay as done as they are. -/
theorem Rows.calm (h : w.Rows) (hlog : v.log = w.log)
    (hup : ∀ j u, v.uploads.lookup j = some u → w.uploads.lookup j = some u)
    (hst : ∀ row, (v.transfer.entry row).status = .done ↔ (w.transfer.entry row).status = .done) :
    v.Rows where
  open_ j u hu := fun hd => h.open_ j u (hup j u hu) ((hst u.row).1 hd)
  done row := by rw [hlog, hst]; exact h.done row
  stored := by rw [hlog]; exact h.stored
  log := by rw [hlog]; exact h.log

/-- So they do when an entry that says nothing of files done is added to the log. -/
theorem Rows.emit {e : Effect} (h : w.Rows) (hlog : v.log = w.log ++ [e])
    (hj : Log.Once w.log e) (ha : e.asked? = none) (hd : e.doneRow? = none) (hs : e.stored? = none)
    (hup : ∀ j u, v.uploads.lookup j = some u → w.uploads.lookup j = some u)
    (hst : ∀ row, (v.transfer.entry row).status = .done ↔ (w.transfer.entry row).status = .done) :
    v.Rows := by
  have hw : ({ w with log := w.log ++ [e] } : World).Rows := {
    open_ := h.open_
    done := fun row => by
      rw [Log.doneRows_concat, ha, hd, if_pos Option.isNone_none, Option.toList_none,
        List.append_nil]
      exact h.done row
    stored := by
      rw [Log.doneRows_concat, Log.storedFiles_concat, ha, hd, hs, if_pos Option.isNone_none,
        if_pos Option.isNone_none, Option.toList_none, Option.toList_none, List.append_nil,
        List.append_nil]
      exact h.stored
    log := h.log.concat hj }
  exact hw.calm hlog hup hst

theorem erased {i : ConnId} (j : ConnId) (u : Upload)
    (hu : (w.uploads.erase i).lookup j = some u) : j ≠ i ∧ w.uploads.lookup j = some u := by
  have hj : j ≠ i := by
    rintro rfl
    rw [AList.lookup_erase] at hu
    cases hu
  exact ⟨hj, by rwa [AList.lookup_erase_ne hj] at hu⟩

theorem Rows.notMem (h : w.Rows) {row : Nat} (hrow : (w.transfer.entry row).status ≠ .done) :
    row ∉ Log.doneRows w.log := fun hmem => hrow ((h.done row).1 hmem)

theorem doneRow?_fileStatus {row : Nat} {status : FileStatus} (h : status ≠ .done) :
    (Effect.fileStatus row status).doneRow? = none := by
  cases status with
  | done => exact absurd rfl h
  | _ => rfl

/-- A file is stored in a row that is not done. -/
theorem Rows.store {i : ConnId} {row : Nat} {path : QString} {content : QByteArray} (h : w.Rows)
    (hrow : (w.transfer.entry row).status ≠ .done)
    (hfit : ∃ a, Log.asked w.log = some a ∧ row < a.files.length ∧
      (content.length : Int) ≤ (a.files.getD row default).size)
    (hlog : v.log = w.log ++ [Effect.stored i row path content] ++ [Effect.fileStatus row .done])
    (hup : ∀ j u, v.uploads.lookup j = some u → w.uploads.lookup j = some u ∧ u.row ≠ row)
    (hst : ∀ row', (v.transfer.entry row').status = .done ↔
      row' = row ∨ (w.transfer.entry row').status = .done) : v.Rows := by
  have hdone : Log.doneRows v.log = Log.doneRows w.log ++ [row] := by
    rw [hlog, Log.doneRows_concat, Log.doneRows_concat]
    simp [Effect.doneRow?]
  have hstored : Log.storedFiles v.log = Log.storedFiles w.log ++ [(row, content)] := by
    rw [hlog, Log.storedFiles_concat, Log.storedFiles_concat]
    simp [Effect.stored?]
  have hnew : row ∉ Log.doneRows (w.log ++ [Effect.stored i row path content]) := by
    rw [Log.doneRows_concat]
    simpa [Effect.doneRow?] using h.notMem hrow
  exact {
    open_ := fun j u hu hd => by
      obtain ⟨hu', hne⟩ := hup j u hu
      rcases (hst u.row).1 hd with he | hd
      · exact hne he
      · exact h.open_ j u hu' hd
    done := fun row' => by
      rw [hdone, hst, List.mem_append, h.done, List.mem_singleton, or_comm]
    stored := by rw [hdone, hstored, List.map_append, h.stored]; rfl
    log := by
      rw [hlog]
      have honce : Log.Once w.log (Effect.stored i row path content) :=
        ⟨by rw [h.stored]; exact h.notMem hrow, hfit⟩
      exact (h.log.concat honce).concat hnew }

section
variable [Qt]

/-- No upload arrives while another connection holds its row. -/
def Singly (w : World) (e : Event) : Prop := ∀ i data, e = .readyRead i data →
  w.Completes i data → ∀ u, (w.heard i data).uploads.lookup i = some u →
  (w.heard i data).Arrived u →
  ∀ j, j ≠ i → ∀ u', (w.heard i data).uploads.lookup j = some u' → u'.row ≠ u.row

def singly : Guard := { Guard.all with
  finish := fun w i => ∀ u, w.uploads.lookup i = some u →
    ∀ j, j ≠ i → ∀ u', w.uploads.lookup j = some u' → u'.row ≠ u.row }

/-- The transfer begins anew. -/
theorem Rows.park {i : ConnId} (hw : w.Rows) (h : w.Inv) (hb : ¬ w.Busy) : (w.park i).Rows := by
  have hs : w.sessionId = [] := not_not.1 (not_or.1 hb).2
  have hlog : (w.park i).log = w.log ++ [Effect.begun i (w.conns i) (requestPeer (w.conns i))
    (parseEntries (requestFiles (w.conns i)))] := rfl
  exact {
    open_ := fun j u hu => by cases (h.no_uploads hs j).symm.trans hu
    done := fun row => by
      rw [hlog, Log.doneRows_concat]
      simpa using status_park i w row
    stored := by rw [hlog, Log.doneRows_concat, Log.storedFiles_concat]; simp
    log := by rw [hlog]; exact hw.log.concat trivial }

/-- The rows that are done are those the log says were completed. -/
theorem Rows.completed (hw : w.Rows) {a : Asked} (ha : w.Recalls a) :
    w.transfer.completedCount = (Log.completed w.log a).length ∧
    w.sessionRecord.fileNames =
      (Log.completed w.log a).map fun row => (a.files.getD row default).fileName := by
  have hname : ∀ row, (w.transfer.entry row).fileName = (a.files.getD row default).fileName :=
    fun row => congrArg (fun d => d.2.1) (ha.entry row)
  have hfilter : w.transfer.files.filter (fun f => f.status = .done) =
      (Log.completed w.log a).map w.transfer.entry := by
    rw [w.transfer.files_eq, List.filter_map, Log.completed, ha.fileCount]
    congr 1
    refine List.filter_congr fun row _ => ?_
    simp [hw.done row]
  refine ⟨?_, ?_⟩
  · rw [TransferModel.completedCount, List.countP_eq_length_filter, hfilter, List.length_map]
  · change (w.transfer.files.filter fun f => f.status = .done).map (·.fileName) = _
    rw [hfilter, List.map_map]
    exact List.map_congr_left fun row _ => hname row

/-- What was written fits what was declared. -/
theorem Recalls.fits {i : ConnId} {u : Upload} {a : Asked} {written content : QByteArray}
    (ha : w.Recalls a) (he : w.Explained singly) (hs : w.Served i u) (hpart : content <+: written)
    (hle : 0 ≤ (w.conns i).maxBodyBytes → (written.length : Int) ≤ (w.conns i).maxBodyBytes) :
    u.row < a.files.length ∧ (content.length : Int) ≤ (a.files.getD u.row default).size := by
  have hrow := (TransferModel.entry_of_indexOfFile hs.found).1
  have hsize : (w.transfer.entry u.row).size = (a.files.getD u.row default).size :=
    congrArg (fun d => d.2.2.1) (ha.entry u.row)
  have hlimit := hs.limit ▸ hle
  have hfit := hlimit (ha.size_nonneg he hrow)
  have hlen := hpart.length_le
  refine ⟨?_, by omega⟩
  rw [← ha.fileCount]
  exact hrow

/-- What is settled leaves the table, and its row has failed or holds the file. -/
theorem Rows.settle {i : ConnId} {u : Upload} (hw : w.Rows) (h : w.Inv) (he : w.Explained singly)
    (hu : w.uploads.lookup i = some u) (hg : w.Arrived u → singly.finish w i) :
    (settleUpload i u { w with uploads := w.uploads.erase i }).2.Rows := by
  have hs := h.served i u hu
  have hopen := hw.open_ i u hu
  obtain ⟨f, hf, hp, hle, -⟩ := hs.handle
  obtain ⟨d, ⟨status, error, -, heq⟩ | ⟨path, content, hpart, hsize, harrived, -, heq⟩⟩ :=
    settleUpload_spec (w := { w with uploads := w.uploads.erase i }) i (hs.file.symm ▸ hf) hp
  · rw [heq]
    exact hw.emit rfl (hw.notMem hopen) rfl rfl rfl
      (fun j u' hu' => (erased j u' hu').2)
      (TransferModel.done_setFileStatus _ hopen FileStatus.noConfusion)
  · rw [heq]
    have halike := TransferModel.alike_setFileLocalPath w.transfer u.row path
    obtain ⟨a, ha⟩ := h.recalls (.inr hs.open_)
    obtain ⟨hlt, hfit⟩ := ha.fits he hs hpart hle
    refine hw.store hopen ⟨a, ha.asked, hlt, hfit⟩ rfl (fun j u' hu' => ?_) fun row' => ?_
    · obtain ⟨hj, hu'⟩ := erased j u' hu'
      exact ⟨hu', hg ((arrived_uploads _).1 harrived) u hu j hj u' hu'⟩
    · rw [TransferModel.status_setFileStatus, TransferModel.fileCount_congr halike.declared,
        halike.status]
      have hlt := (TransferModel.entry_of_indexOfFile hs.found).1
      by_cases hrow : row' = u.row <;> simp [hrow, hlt]

theorem Act.rows (ha : Act singly w v) (h : w.Inv) (he : w.Explained singly) (hw : w.Rows) :
    v.Rows := by
  have same : ∀ row, (w.transfer.entry row).status = .done ↔ (w.transfer.entry row).status = .done :=
    fun _ => .rfl
  have stay : ∀ j u, w.uploads.lookup j = some u → w.uploads.lookup j = some u := fun _ _ hu => hu
  cases ha with
  | outside => exact hw.calm rfl stay same
  | aside => exact hw.calm rfl stay same
  | files => exact hw.calm rfl stay same
  | probe => exact hw.calm rfl stay same
  | conns => exact hw.calm rfl stay same
  | read => exact hw.calm rfl stay same
  | complete => exact hw.calm rfl stay same
  | reply => exact hw.calm rfl stay same
  | connect => exact hw.calm rfl stay same
  | transfer ht => exact hw.calm rfl stay fun row => by rw [ht.status row]
  | wrote =>
    unfold World.write
    split
    · exact hw.calm rfl stay same
    · exact hw.emit rfl trivial rfl rfl rfl stay same
  | short =>
    unfold World.write
    split
    · exact hw.calm rfl stay same
    · exact hw.emit rfl trivial rfl rfl rfl stay same
  | park hb => exact hw.park h hb
  | prompt => exact hw.emit rfl trivial rfl rfl rfl stay same
  | @openSession i directory =>
    obtain ⟨id, d, t, tokens, heq, -, -, ht, -⟩ := openSession_eq w i directory
    rw [heq]
    have h₁ : ({ w with log := w.log ++ [Effect.issued id (w.conns i).peerAddress tokens] } :
        World).Rows := hw.emit rfl trivial rfl rfl rfl stay same
    exact h₁.emit rfl trivial rfl rfl rfl stay fun row => by
      change (t.entry row).status = _ ↔ _
      rw [ht.status row]
  | release => exact hw.calm rfl stay same
  | @enter i row path _ hadm =>
    obtain ⟨d, hd⟩ := entered_eq w i row path { w.conns i with
      sink := some i
      maxBodyBytes := (w.transfer.entry row).size }
    have h₁ : ({ w with log := w.log ++ [Effect.opened i (w.conns i) row] } : World).Rows :=
      hw.emit rfl trivial rfl rfl rfl stay same
    have hmarked := TransferModel.done_setFileStatus (t := w.transfer) (s := .transferring) []
      hadm.notDone FileStatus.noConfusion
    have h₂ : ({ w with
        log := w.log ++ [Effect.opened i (w.conns i) row] ++ [.fileStatus row .transferring]
        transfer := w.transfer.setFileStatus row .transferring [] } : World).Rows :=
      h₁.emit rfl (h₁.notMem hadm.notDone) rfl rfl rfl stay hmarked
    rw [hd]
    exact { h₂ with
      open_ := fun j u hu => by
        by_cases hj : j = i
        · subst hj
          obtain rfl := Option.some.inj ((AList.lookup_insert _).symm.trans hu)
          exact fun hd => hadm.notDone ((hmarked row).1 hd)
        · exact h₂.open_ j u ((AList.lookup_insert_ne hj).symm.trans hu) }
  | mark hrow hs =>
    exact hw.emit rfl (hw.notMem hrow) rfl (doneRow?_fileStatus hs) rfl stay
      (TransferModel.done_setFileStatus _ hrow hs)
  | @drop i u c error hu =>
    obtain ⟨d, hd⟩ := dropUpload_eq i u error w
    have hopen := hw.open_ i u hu
    rw [hd]
    exact hw.emit rfl (hw.notMem hopen) rfl rfl rfl (fun j u' hu' => (erased j u' hu').2)
      (TransferModel.done_setFileStatus _ hopen FileStatus.noConfusion)
  | settle hu _ _ hg => exact hw.settle h he hu hg
  | remember =>
    unfold rememberPeer
    split
    · exact hw.emit rfl trivial rfl rfl rfl stay same
    · exact hw
  | record hs =>
    unfold writeHistory
    split
    · obtain ⟨a, ha⟩ := h.recalls (.inr hs)
      exact hw.emit rfl ⟨a, ha.asked, (hw.completed ha).2⟩ rfl rfl rfl stay same
    · exact hw
  | finish destination hs hu =>
    obtain ⟨a, ha⟩ := h.recalls (.inr hs)
    have h₁ : ({ w with log := w.log ++ [Effect.ended] } : World).Rows :=
      hw.emit rfl trivial rfl rfl rfl stay same
    refine h₁.emit rfl ⟨a, (Log.asked_concat _ _).trans ha.asked, (hw.completed ha).1.trans ?_⟩
      rfl rfl rfl stay same
    simp [Log.completed, Log.doneRows_concat, Effect.doneRow?]
  | posted => exact hw.emit rfl trivial rfl rfl rfl stay same

theorem Singly.permits {e : Event} (h : w.Singly e) : Permits singly w e :=
  { permits_all w e with
    serves := fun i data he hc _ => {
      park := fun _ => trivial
      finish := fun u hu ha u₁ hu₁ => by
        obtain rfl := Option.some.inj (hu.symm.trans hu₁)
        exact h i data he hc u hu ha
      forget := fun _ _ _ => trivial } }

theorem reached_rows (h : Lib.ReachedBy system Singly w) : w.Rows ∧ w.Explained singly := by
  refine reached_keep (g := singly) (P := fun w => w.Rows ∧ w.Explained singly)
    (fun _ _ _ he => he.permits) (fun w hs => ⟨?_, hs.explained⟩)
    (fun ha hi hw => ⟨ha.rows hi hw.2 hw.1, ha.explained hi hw.2⟩) h
  exact {
    open_ := fun j u hu => by
      rw [hs.uploads, AList.lookup_empty] at hu
      cases hu
    done := fun row => by
      rw [hs.log, hs.transfer]
      exact iff_of_false List.not_mem_nil FileStatus.noConfusion
    stored := by rw [hs.log]; rfl
    log := by rw [hs.log]; exact .nil }

/-- In a run in which no upload arrives while another connection holds its row, a row that is done
stays done until the transfer is begun anew: nothing is said of it again, and what is said of the
session at its end counts it. -/
theorem done_is_final (h : Lib.ReachedBy system Singly w) :
    (∀ row ∈ Log.doneRows w.log, (w.transfer.entry row).status = .done) ∧
    (∀ pre row status post, w.log = pre ++ Effect.fileStatus row status :: post →
      row ∉ Log.doneRows pre) ∧
    (∀ pre status fileCount destination post,
      w.log = pre ++ Effect.transferFinished status fileCount destination :: post →
      ∃ a, Log.asked pre = some a ∧ fileCount = (Log.completed pre a).length) ∧
    ∀ pre r post, w.log = pre ++ Effect.recorded r :: post →
      ∃ a, Log.asked pre = some a ∧
        r.fileNames = (Log.completed pre a).map fun row => (a.files.getD row default).fileName := by
  obtain ⟨hrows, -⟩ := reached_rows h
  exact ⟨fun row hrow => (hrows.done row).1 hrow,
    fun pre row status post hw => hrows.log pre _ post hw,
    fun pre status fileCount destination post hw => hrows.log pre _ post hw,
    fun pre r post hw => hrows.log pre _ post hw⟩

/-- In such a run each row takes at most one file, so that a request is never given more room on the
disk than it declared; and that is what the prompt shows, if it fits a `qint64`. -/
theorem stored_once (h : Lib.ReachedBy system Singly w) :
    (∀ pre post, w.log = pre ++ post → ((Log.storedFiles pre).map Prod.fst).Nodup ∧
      ∀ a, Log.asked pre = some a →
        ((Log.storedFiles pre).map fun f => (f.2.length : Int)).sum ≤
          (a.files.map FileEntry.size).sum) ∧
    ∀ pre aliasName fileCount totalBytes post,
      w.log = pre ++ Effect.prompted aliasName fileCount totalBytes :: post →
      ∃ a, Log.asked pre = some a ∧ totalBytes = wrap64 (a.files.map FileEntry.size).sum := by
  obtain ⟨hrows, he⟩ := reached_rows h
  refine ⟨fun pre post hw => ?_, fun pre aliasName fileCount totalBytes post hw => ?_⟩
  · have honce : Lib.Justified Log.Once pre := (hw ▸ hrows.log).of_append
    refine ⟨Log.Once.nodup honce, fun a ha => sum_le_declared (Log.Once.nodup honce)
      (fun f hf => Log.asked_size (he.before hw) ha hf) fun f hf => ?_⟩
    obtain ⟨a', ha', hlt, hfit⟩ := Log.Once.fits honce hf
    obtain rfl := Option.some.inj (ha.symm.trans ha')
    exact ⟨hlt, hfit⟩
  · obtain ⟨a, ⟨ha, -⟩, -, -, htotal⟩ := he pre _ post hw
    exact ⟨a, ha, htotal.trans (TransferModel.totalSize_eq _)⟩

theorem singly_of_keys {i : ConnId} {data : QByteArray}
    (h : ∀ j ∈ (w.heard i data).uploads.keys, j = i) : w.Singly (.readyRead i data) := by
  rintro _ _ ⟨⟩ - u - - j hj u' hu'
  refine absurd (h j ?_) hj
  by_contra hnot
  rw [← AList.mem_keys, ← AList.lookup_eq_none] at hnot
  cases hnot.symm.trans hu'

end

/-! ## Two connections, one row -/

section

local instance overtakenQt : Qt := Ascii.qt [(Ascii.json oneFile, oneFile)] []

theorem hello_singly : Lib.ReachedBy system Singly ((helloEvents oneFile).foldl step helloStart) := by
  refine Lib.ReachedBy.run _ (.start helloStart_start) ⟨?_, ?_, ?_, ?_, ?_, trivial⟩
  · rintro i data ⟨⟩
  · rintro i data ⟨⟩
  · exact singly_of_keys (by decide +kernel)
  · rintro i data ⟨⟩
  · exact singly_of_keys (by decide +kernel)

def isFinished : Effect → Bool
  | .transferFinished .. => true
  | _ => false

theorem hello_final : ∃ w : World, (w.transfer.entry 0).status = .done ∧
    ∃ pre status fileCount destination post a,
      w.log = pre ++ Effect.transferFinished status fileCount destination :: post ∧
      Log.asked pre = some a ∧ fileCount = (Log.completed pre a).length := by
  have hdone : 0 ∈ Log.doneRows ((helloEvents oneFile).foldl step helloStart).log ∧
      ((helloEvents oneFile).foldl step helloStart).log.any isFinished = true := by decide +kernel
  obtain ⟨e, hmem, he⟩ := List.any_eq_true.1 hdone.2
  obtain ⟨pre, post, hw⟩ := List.append_of_mem hmem
  cases e with
  | transferFinished status fileCount destination =>
    obtain ⟨h1, -, h2, -⟩ := done_is_final hello_singly
    obtain ⟨a, ha, hcount⟩ := h2 pre status fileCount destination post hw
    exact ⟨_, h1 0 hdone.1, pre, status, fileCount, destination, post, a, hw, ha, hcount⟩
  | _ => cases he

theorem hello_once : ∃ w : World, Log.storedFiles w.log = [(0, ascii "hello")] ∧
    ((Log.storedFiles w.log).map Prod.fst).Nodup :=
  ⟨_, by decide +kernel, ((stored_once hello_singly).1 _ [] (List.append_nil _).symm).1⟩

/-- A peer uploads the only file twice at once, and the first upload to arrive ends the session. -/
def overtakenEvents : List Event := [
  .startListening,
  .connect (str "10.0.0.2") none,
  .readyRead 0 (post prepareTarget (Ascii.json oneFile)),
  .connect (str "10.0.0.2") none,
  .connect (str "10.0.0.2") none,
  .readyRead 1 (helloUpload.dropLast),
  .readyRead 2 helloUpload]

/-- The file is stored and its row done; then the row has failed, and nothing was received. -/
theorem done_then_failed : ∃ w : World, Lib.Reached system w ∧
    0 ∈ Log.doneRows w.log ∧ (0, ascii "hello") ∈ Log.storedFiles w.log ∧
    (w.transfer.entry 0).status = .failed ∧ w.transfer.completedCount = 0 ∧
    w.history.records = [] :=
  ⟨overtakenEvents.foldl step helloStart,
    Lib.ReachedBy.run_any _ (.start helloStart_start), by decide +kernel⟩

end

def twoFiles : QJsonObject := offer (str "laptop") (str "ab12") [
  (str "a", descriptor (str "a.txt") 5),
  (str "b", descriptor (str "b.txt") 1)]

section

local instance doubledQt : Qt := Ascii.qt [(Ascii.json twoFiles, twoFiles)] []

/-- A peer uploads the first of two files twice at once. -/
def doubledEvents : List Event := [
  .startListening,
  .connect (str "10.0.0.2") none,
  .readyRead 0 (post prepareTarget (Ascii.json twoFiles)),
  .connect (str "10.0.0.2") none,
  .connect (str "10.0.0.2") none,
  .readyRead 1 (helloUpload.dropLast),
  .readyRead 2 helloUpload,
  .readyRead 1 (ascii "o")]

/-- One row, two files on the disk, and more bytes than the request declared. -/
theorem stored_twice : ∃ w : World, Lib.Reached system w ∧
    (Log.storedFiles w.log).map Prod.fst = [0, 0] ∧
    w.disk (str "/d/a.txt") = some (.file (ascii "hello")) ∧
    w.disk (str "/d/a (2).txt") = some (.file (ascii "hello")) ∧
    (Log.asked w.log).map (fun a => (a.files.map FileEntry.size).sum) = some 6 :=
  ⟨doubledEvents.foldl step helloStart,
    Lib.ReachedBy.run_any _ (.start helloStart_start), by decide +kernel⟩

end

end World

end LocalSend
