import LocalSend.Receive.Proof.Streams

/-!
# A completed file is the agreed one

When `handleUploadFinished` finds an upload complete, its file is the body that the stream of its
connection spells, of the size and with the digest its row declares (`Agrees`). What a step leaves
on the disk otherwise was there, belongs to an upload whose connection has not closed, or could not
be removed (`Left`).
-/

set_option autoImplicit false

namespace LocalSend

namespace World

section
variable [Qt] {g : Guard} {w v : World} {i : ConnId}

/-! ## What is completed -/

/-- The request of `i` is in, and the row of its upload `u` becomes done: `v` is what
`handleUploadFinished` has made of the world by then. -/
structure Stores (w : World) (i : ConnId) (data : QByteArray) (u : Upload) (v : World) : Prop where
  completes : w.Completes i data
  upload : (w.heard i data).uploads.lookup i = some u
  settled : (settleUpload i u { w.heard i data with
    uploads := (w.heard i data).uploads.erase i }).2 = v
  done : (v.transfer.entry u.row).status = .done

/-- The file of the row is this one, and is what the row declares. -/
structure Agrees (v : World) (row : Nat) (body : QByteArray) : Prop where
  content : v.disk (v.transfer.entry row).localPath = some (.file body)
  size : (v.transfer.entry row).size = body.length
  digest : looksLikeSha256 (v.transfer.entry row).sha256 = true →
    Crypto.equalsFold (QString.fromLatin1 (QByteArray.toHex (Qt.sha256 body)))
      (v.transfer.entry row).sha256 = true

theorem Stores.agrees {b data : QByteArray} {u : Upload} (hs : w.Stores i data u v) (h : w.Inv)
    (he : w.Explained .all) (hears : Hears i b w) :
    ∃ body, Judge.lenient.scan (b ++ data) = ⟨.complete, body⟩ ∧ v.Agrees u.row body := by
  obtain ⟨body, hscan, hd⟩ := hears.completes h hs.completes
  refine ⟨body, hscan, ?_⟩
  have hreads := (hs.completes.reads h).1
  obtain ⟨hinv, hexpl⟩ : (w.heard i data).Inv ∧ (w.heard i data).Explained .all :=
    (hreads.acts.mono (Guard.reading_le trivial)).keep (P := fun v => v.Inv ∧ v.Explained .all)
      (fun ha hv => ⟨ha.inv hv.1, ha.explained hv.1 hv.2⟩) ⟨h, he⟩
  have hserved := hinv.served i u hs.upload
  have hrow := (TransferModel.entry_of_indexOfFile hserved.found).1
  obtain ⟨f, hf, hp, hle, -⟩ := hserved.handle
  obtain ⟨f', hf', hwritten⟩ := hd u hs.upload
  obtain rfl := Option.some.inj (hf.symm.trans hf')
  obtain ⟨a, ha⟩ := hinv.recalls (.inr hserved.open_)
  have hdone := hs.done
  rw [← hs.settled] at hdone ⊢
  obtain ⟨d, ⟨status, error, -, heq⟩ | ⟨path, content, hpart, hsize, harrived, hfile, heq⟩⟩ :=
    settleUpload_spec (w := { w.heard i data with
      uploads := (w.heard i data).uploads.erase i }) i (hserved.file.symm ▸ hf) hp
  · -- a row that has failed is not done
    rw [heq] at hdone
    have hdone : (((w.heard i data).transfer.setFileStatus u.row .failed error).entry
      u.row).status = .done := hdone
    rw [TransferModel.status_setFileStatus, if_pos ⟨rfl, hrow⟩] at hdone
    cases hdone
  · rw [heq]
    have hdeclared : ((((w.heard i data).transfer.setFileLocalPath u.row path).setFileStatus u.row
        .done []).entry u.row).declared = ((w.heard i data).transfer.entry u.row).declared :=
      TransferModel.declared_entry ((TransferModel.declared_setFileStatus _ _ _ _).trans
        (TransferModel.alike_setFileLocalPath _ _ _).declared) u.row
    -- no more was written than declared, and no less is left of it
    have hlimit := (hserved.limit ▸ hle) (ha.size_nonneg hexpl hrow)
    have hlen : f.written.length ≤ content.length := by
      have hsize : ((w.heard i data).transfer.entry u.row).size ≤ content.length := hsize
      omega
    obtain rfl : content = f.written := hpart.eq_of_length_le hlen
    rw [hwritten] at hfile hsize hlimit
    have hlocal : ((((w.heard i data).transfer.setFileLocalPath u.row path).setFileStatus u.row
        .done []).entry u.row).localPath = path :=
      (TransferModel.localPath_setFileStatus _ _ _ _ _).trans
        (TransferModel.localPath_setFileLocalPath hrow path)
    have hsha : ((((w.heard i data).transfer.setFileLocalPath u.row path).setFileStatus u.row
        .done []).entry u.row).sha256 = ((w.heard i data).transfer.entry u.row).sha256 :=
      congrArg (fun d => d.2.2.2.2) hdeclared
    refine ⟨?_, ?_, fun hlooks => ?_⟩
    · exact (congrArg d hlocal).trans hfile
    · refine (congrArg (fun d => d.2.2.1) hdeclared).trans (Int.le_antisymm hsize ?_)
      exact hlimit
    · have hlooks' : looksLikeSha256 ((w.heard i data).transfer.entry u.row).sha256 = true :=
        (congrArg looksLikeSha256 hsha).symm.trans hlooks
      have hmatches := ((arrived_uploads _).1 harrived).2 f (hserved.file.symm ▸ hf)
      unfold digestMatches at hmatches
      rw [Bool.true_and, if_pos hlooks', hwritten, ← hsha] at hmatches
      exact hmatches

/-! ## What is left on the disk -/

/-- Where no upload arrives, no file is completed. -/
theorem Act.not_completed (ha : Act g w v) (h : w.Inv) (hg : ∀ w i, ¬ g.finish w i) (row : Nat)
    (p : QString) : ¬ Completed w v row p := by
  rintro ⟨i, content, l, hl⟩
  obtain ⟨l', hl', hentries⟩ := ha.entries h
  have hlist : Effect.stored i row p content :: l = l' := List.append_cancel_left (hl.symm.trans hl')
  obtain ⟨j, hj⟩ := (hentries (.stored i row p content) (hlist ▸ List.mem_cons_self)).2
    (Option.some_ne_none _)
  exact hg w j hj

/-- Why there is a file at `p` after an event. -/
inductive Left (w : World) (e : Event) (p : QString) : Prop
  /-- It was there, and no upload was writing to it. -/
  | old {content : QByteArray} : w.disk p = some (.file content) →
      (∀ i u, w.uploads.lookup i = some u → u.partPath ≠ p) → Left w e p
  /-- An upload writes to it whose connection has not closed. -/
  | written {i : ConnId} {u : Upload} : (w.step e).uploads.lookup i = some u → u.partPath = p →
      ((w.step e).conns i).closedEmitted = false → Left w e p
  /-- It is the file of the row that has become done. -/
  | completed {i : ConnId} {data : QByteArray} {u : Upload} {v : World} : e = .readyRead i data →
      w.Stores i data u v → (v.transfer.entry u.row).localPath = p → Left w e p
  /-- The system would not remove it. -/
  | refused : w.env.removes p = false → Left w e p

/-- Only the service is at work, and no upload arrives. -/
def unfinished : Guard := { alone with finish := fun _ _ => False }

theorem Standing.acts {C : QString → Prop} {u : World} (hw : Standing C w u)
    (ha : Acts unfinished u v) (h : u.Inv) : Standing C w v :=
  (ha.keep (P := fun v => v.Inv ∧ Standing C w v) (fun hact hv => ⟨hact.inv hv.1,
    hact.standing hv.1 (fun _ => id) id (fun row p hdone =>
      absurd hdone (hact.not_completed hv.1 (fun _ _ => id) row p)) hv.2⟩) ⟨h, hw⟩).2

/-- An upload is handed on to the handler that ends it. -/
theorem onRequestReady_upload (h : w.Inv) {u : Upload} (hu : w.uploads.lookup i = some u) :
    w.onRequestReady i = w.handleUploadFinished i := by
  have hpath := (h.served i u hu).path
  unfold onRequestReady
  rw [hpath]
  have hinfo : ¬ (endpoint Protocol.PathUpload = endpoint Protocol.PathInfo ∨
      endpoint Protocol.PathUpload = Protocol.PathLegacyInfo) := by decide
  have hregister : endpoint Protocol.PathUpload ≠ endpoint Protocol.PathRegister := by decide
  have hprepare : endpoint Protocol.PathUpload ≠ endpoint Protocol.PathPrepareUpload := by decide
  simp only [if_neg hinfo, if_neg hregister, if_neg hprepare, if_true]

/-- What the row became done with is the file that was completed. -/
theorem settled_completes {u : Upload} (h : w.Inv) (hu : w.uploads.lookup i = some u) {row : Nat}
    {p : QString} (hdone : Completed w
      (settleUpload i u { w with uploads := w.uploads.erase i }).2 row p) :
    (((settleUpload i u { w with uploads := w.uploads.erase i }).2.transfer.entry
      u.row).status = .done) ∧
    ((settleUpload i u { w with uploads := w.uploads.erase i }).2.transfer.entry
      u.row).localPath = p := by
  have hs := h.served i u hu
  have hrow := (TransferModel.entry_of_indexOfFile hs.found).1
  obtain ⟨f, hf, hp, -⟩ := hs.handle
  obtain ⟨j, content, l, hl⟩ := hdone
  obtain ⟨d, ⟨status, error, -, heq⟩ | ⟨path, content', -, -, -, -, heq⟩⟩ :=
    settleUpload_spec (w := { w with uploads := w.uploads.erase i }) i (hs.file.symm ▸ hf) hp
  · rw [heq] at hl
    have hlist := List.append_cancel_left hl
    cases hlist
  · rw [heq] at hl ⊢
    have hlist := List.append_cancel_left ((List.append_assoc _ _ _).symm.trans hl)
    obtain ⟨-, -, rfl, -⟩ := Effect.stored.inj (List.cons.inj hlist).1
    have hlt : u.row < (w.transfer.setFileLocalPath u.row path).fileCount := by
      rw [TransferModel.fileCount_congr (TransferModel.alike_setFileLocalPath _ _ _).declared]
      exact hrow
    exact ⟨(TransferModel.status_setFileStatus _ _ _ _ _).trans (if_pos ⟨rfl, hlt⟩),
      (TransferModel.localPath_setFileStatus _ _ _ _ _).trans
        (TransferModel.localPath_setFileLocalPath hrow path)⟩

theorem step_left (h : w.Inv) (hs : w.Stocked) {e : Event} (he : ∀ disk, e ≠ .otherFiles disk)
    {p : QString} {content : QByteArray} (hp : (w.step e).disk p = some (.file content)) :
    w.Left e p := by
  let C : QString → Prop := fun p => ∃ i data u v, e = .readyRead i data ∧ w.Stores i data u v ∧
    (v.transfer.entry u.row).localPath = p
  have left_of : Stands C w (w.step e) p → w.Left e p := by
    intro hstands
    cases hstands with
    | old hold hnone => exact .old hold hnone
    | written hu hpath => exact .written hu hpath ((hs.step h e).up _ _ hu)
    | refused hr => exact .refused hr
    | completed hc =>
      obtain ⟨i, data, u, v, heq, hstores, hlocal⟩ := hc
      exact .completed heq hstores hlocal
  by_cases hsys : ∃ env, e = .system env
  · obtain ⟨env, rfl⟩ := hsys
    exact left_of (((Standing.refl C w).2 p content hp).later id fun _ _ hx _ => hx)
  refine left_of ?_
  by_cases hends : ∃ i data u, e = .readyRead i data ∧ w.Completes i data ∧
      (w.heard i data).uploads.lookup i = some u
  · obtain ⟨i, data, u, rfl, hc, hu⟩ := hends
    obtain ⟨hreads, heq⟩ := hc.reads h
    have hv : (w.heard i data).Inv := hreads.acts.inv h
    have hheard : Standing C w (w.heard i data) :=
      (Standing.refl C w).acts (hreads.acts.mono (Guard.reading_le trivial)) h
    -- the upload ends, and at most its own file is completed
    have hact : Act alone (w.heard i data) (settleUpload i u { w.heard i data with
        uploads := (w.heard i data).uploads.erase i }).2 :=
      .settle hu hreads.state hreads.complete fun _ => trivial
    have hsettled := hact.standing hv (fun _ => id) id (fun row p hdone => ?_) hheard
    · have hafter := hsettled.acts (settledUpload_acts hv hu) (hact.inv hv)
      rw [heq, onRequestReady_upload hv hu] at hp ⊢
      exact hafter.2 p content hp
    · obtain ⟨hstatus, hlocal⟩ := settled_completes hv hu hdone
      exact ⟨i, data, u, _, rfl, ⟨hc, hu, rfl, hstatus⟩, hlocal⟩
  · have hpermits : Permits unfinished w e := { permits_all w e with
      system := fun env heq => hsys ⟨env, heq⟩
      files := fun disk heq => absurd heq (he disk)
      serves := fun i data heq hc hr => { (permits_all w e).serves i data heq hc hr with
        finish := fun u hu _ => hends ⟨i, data, u, heq, hc, hu⟩ } }
    exact ((Standing.refl C w).acts (step_acts h e hpermits) h).2 p content hp

/-! ## Runs -/

/-- In every run: when `handleUploadFinished` sets a row to done, the file at its path holds exactly
the body that the stream of the connection spells, of the size the row declares and with the digest
it declares; and what a step leaves on the disk otherwise was there before and is nobody's, or
belongs to an upload whose connection has not closed, or could not be removed. -/
theorem completed_agreed {w₀ : World} (hs : w₀.Start) (events : List Event) :
    (∀ i data u v, (events.foldl step w₀).Stores i data u v →
      ∃ body, Judge.lenient.scan (received i w₀ (events ++ [.readyRead i data])) =
        ⟨.complete, body⟩ ∧ v.Agrees u.row body) ∧
    ∀ e, (∀ disk, e ≠ .otherFiles disk) → ∀ p content,
      ((events.foldl step w₀).step e).disk p = some (.file content) →
        (events.foldl step w₀).Left e p := by
  have hreached : Lib.Reached system (events.foldl step w₀) :=
    Lib.ReachedBy.run_any events (.start hs)
  have hinv := reached_inv hreached
  refine ⟨fun i data u v hstores => ?_, fun e he p content hp =>
    step_left hinv (reached_stocked hreached) he hp⟩
  have hlive := hstores.completes.1
  have hears := (run_knows hs i events).born (born_of_live hlive)
  have hbrings : (events.foldl step w₀).brings i (.readyRead i data) = data :=
    if_pos ⟨rfl, hlive⟩
  rw [received_concat, hbrings]
  exact hstores.agrees hinv (reached_explained hreached) hears

end

/-! ## Runs -/

section

local instance agreedQt : Qt := Ascii.qt [(Ascii.json oneFile, oneFile)] []

/-- The upload of the first file, but for its last byte. -/
def helloBegun : List Event := (helloEvents oneFile).take 4 ++ [
  .readyRead 1 helloUpload.dropLast]

theorem hello_agreed : ∃ v body, Judge.lenient.scan (received 1 helloStart
      (helloBegun ++ [.readyRead 1 (ascii "o")])) = ⟨.complete, body⟩ ∧
    body = ascii "hello" ∧ World.Agrees v 0 body := by
  have hcompletes : Completes (helloBegun.foldl step helloStart) 1 (ascii "o") := by
    unfold Completes
    decide +kernel
  have hupload : ((helloBegun.foldl step helloStart).heard 1 (ascii "o")).uploads.lookup 1 =
      some ⟨0, 1, str "/d/a.txt.part", str "/d/a.txt"⟩ := by decide +kernel
  have hdone : ((settleUpload 1 ⟨0, 1, str "/d/a.txt.part", str "/d/a.txt"⟩
      { (helloBegun.foldl step helloStart).heard 1 (ascii "o") with
        uploads := ((helloBegun.foldl step helloStart).heard 1 (ascii "o")).uploads.erase 1
      }).2.transfer.entry 0).status = .done := by decide +kernel
  obtain ⟨body, hscan, hagrees⟩ := (completed_agreed helloStart_start helloBegun).1 1 (ascii "o")
    ⟨0, 1, str "/d/a.txt.part", str "/d/a.txt"⟩ _ ⟨hcompletes, hupload, rfl, hdone⟩
  have hbody : (Judge.lenient.scan (received 1 helloStart
      (helloBegun ++ [.readyRead 1 (ascii "o")]))).body = ascii "hello" := by decide +kernel
  rw [hscan] at hbody
  exact ⟨_, body, hscan, hbody, hagrees⟩

/-- The part file of an upload that was cut off stays when the system will not remove it. -/
theorem dropped_upload_left : ∃ w : World, Lib.Reached system w ∧
    (w.conns 1).closedEmitted = true ∧ (w.transfer.entry 0).status = .failed ∧
    helloStart.disk (str "/d/a.txt.part") = none ∧
    w.disk (str "/d/a.txt.part") = some (.file (ascii "hell")) :=
  ⟨(helloBegun ++ [Event.system { Env.obliging with removes := fun _ => false },
      Event.disconnected 1]).foldl step helloStart,
    Lib.ReachedBy.run_any _ (.start helloStart_start), by decide +kernel⟩

end

end World

end LocalSend
