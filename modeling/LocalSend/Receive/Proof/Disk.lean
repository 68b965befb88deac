import LocalSend.Receive.Proof.Steps

/-!
# What an act does to the disk

Each file operation is stated once. From these: what the end of an upload leaves on the disk
(`Ends`), what `prepareDirectory` leaves there, and that every act is one of five kinds as far as
the disk and the table of uploads go (`FileAct`).
-/

set_option autoImplicit false

namespace LocalSend

namespace World

/-! ## Files -/

theorem closeFile_of {w : World} {f : FileId} {h : HashingFile} (hf : w.handles f = some h) :
    w.closeFile f = { w with
      disk := Function.update w.disk h.path (some (.file (h.written.take (w.env.kept h.path))))
      handles := Function.update w.handles f none } := by
  unfold closeFile
  rw [hf]

theorem removeFile_disk {w : World} {path : QString} {content : QByteArray}
    (h : w.disk path = some (.file content)) :
    (∀ p, p ≠ path → (w.removeFile path).disk p = w.disk p) ∧
      ((w.removeFile path).disk path = none ∨ w.env.removes path = false) := by
  unfold removeFile
  split
  · refine ⟨fun p hp => Function.update_of_ne hp _ _, .inl ?_⟩
    exact Function.update_self _ _ _
  · rename_i hno
    refine ⟨fun _ _ => rfl, .inr ?_⟩
    rw [h] at hno
    simpa using hno

/-- Between `w` and `v` the file of the row was completed under this path. -/
def Completed (w v : World) (row : Nat) (p : QString) : Prop :=
  ∃ i content l, v.log = w.log ++ Effect.stored i row p content :: l

theorem Completed.mem {w v : World} {row : Nat} {p : QString} (h : Completed w v row p) :
    ∃ i content, Effect.stored i row p content ∈ v.log := by
  obtain ⟨i, content, l, hl⟩ := h
  refine ⟨i, content, ?_⟩
  rw [hl]
  exact List.mem_append_right _ List.mem_cons_self

/-- What the end of an upload has done to the disk: its part file is gone, or lies under the path
that is recorded for its row, or could not be removed. -/
structure Ends (w v : World) (u : Upload) : Prop where
  elsewhere : ∀ p, p ≠ u.partPath → v.disk p = w.disk p ∨
    (w.disk p = none ∧ Completed w v u.row p)
  part : v.disk u.partPath = none ∨ w.env.removes u.partPath = false ∨
    Completed w v u.row u.partPath
  stored : ∀ i row p content, Effect.stored i row p content ∈ v.log →
    Effect.stored i row p content ∈ w.log ∨
      v.disk p ≠ none ∧ (p = u.partPath ∨ w.disk p = none)

theorem dropUpload_ends {w : World} {u : Upload} {h : HashingFile} (i : ConnId) (error : QString)
    (hf : w.handles u.file = some h) (hp : h.path = u.partPath) :
    Ends w (w.dropUpload i u error) u := by
  have hclose := closeFile_of (w := { w with uploads := w.uploads.erase i }) hf
  rw [hp] at hclose
  unfold dropUpload
  rw [hclose]
  obtain ⟨hother, hpart⟩ := removeFile_disk (w := { w with
    uploads := w.uploads.erase i
    disk := Function.update w.disk u.partPath
      (some (.file (h.written.take (w.env.kept u.partPath))))
    handles := Function.update w.handles u.file none }) (Function.update_self u.partPath _ _)
  obtain ⟨d, hd⟩ := removeFile_eq u.partPath { w with
    uploads := w.uploads.erase i
    disk := Function.update w.disk u.partPath
      (some (.file (h.written.take (w.env.kept u.partPath))))
    handles := Function.update w.handles u.file none }
  rw [hd] at hother hpart ⊢
  refine ⟨fun p hne => .inl ?_, hpart.imp_right .inl, fun j row p content hmem => .inl ?_⟩
  · exact (hother p hne).trans (Function.update_of_ne hne _ _)
  · simpa [setFileStatus] using hmem

/-- A file that was renamed is where it was told to go, which was free; or it is where it was. -/
theorem renameFile_disk {w : World} {path : QString} {content : QByteArray} (target : QString)
    (h : w.disk path = some (.file content)) : ∃ d,
    (w.renameFile path target = (true, { w with disk := d }) ∧ w.disk target = none ∧
      d target = some (.file content) ∧ d path = none ∧
      ∀ p, p ≠ path → p ≠ target → d p = w.disk p) ∨
    w.renameFile path target = (false, w) := by
  unfold renameFile
  rw [h]
  by_cases hr : w.env.renames path target = true ∧ w.disk target = none
  · have hne : path ≠ target := by
      rintro rfl
      cases h.symm.trans hr.2
    refine ⟨_, .inl ⟨if_pos hr, hr.2, Function.update_self _ _ _, ?_, fun p hp ht => ?_⟩⟩
    · rw [Function.update_of_ne hne, Function.update_self]
    · rw [Function.update_of_ne ht, Function.update_of_ne hp]
  · exact ⟨w.disk, .inr (if_neg hr)⟩

theorem settleUpload_ends [Qt] {w : World} {u : Upload} {h : HashingFile} (i : ConnId)
    (hf : w.handles u.file = some h) (hp : h.path = u.partPath) :
    Ends w (settleUpload i u w).2 u := by
  have hclose := closeFile_of hf
  rw [hp] at hclose
  set v : World := { w with
    disk := Function.update w.disk u.partPath
      (some (.file (h.written.take (w.env.kept u.partPath))))
    handles := Function.update w.handles u.file none } with hv
  have hpart : v.disk u.partPath = some (.file (h.written.take (w.env.kept u.partPath))) :=
    Function.update_self _ _ _
  have helse : ∀ p, p ≠ u.partPath → v.disk p = w.disk p :=
    fun p hne => Function.update_of_ne hne _ _
  -- the row has failed, and its part file goes
  have failed : ∀ error, Ends w ((v.removeFile u.partPath).setFileStatus u.row .failed error) u := by
    intro error
    obtain ⟨hother, hgone⟩ := removeFile_disk hpart
    obtain ⟨d, hd⟩ := removeFile_eq u.partPath v
    rw [hd] at hother hgone ⊢
    refine ⟨fun p hne => .inl ((hother p hne).trans (helse p hne)), hgone.imp_right .inl,
      fun j row p content hmem => .inl ?_⟩
    simpa [setFileStatus] using hmem
  -- the row is done, and its file lies under a path that was its own or free
  have done : ∀ (d : Disk) path, (path = u.partPath ∨ w.disk path = none) →
      (path ≠ u.partPath → d u.partPath = none) → d path ≠ none →
      (∀ p, p ≠ u.partPath → p ≠ path → d p = w.disk p) →
      Ends w (World.fileDone i u.row path { v with disk := d }) u := by
    intro d path hpath hmoved hthere hd
    obtain ⟨content, hdone⟩ := fileDone_eq i u.row path { v with disk := d }
    have hstored : Completed w (World.fileDone i u.row path { v with disk := d }) u.row path :=
      ⟨i, content, [.fileStatus u.row .done], by rw [hdone]⟩
    have hdisk : (World.fileDone i u.row path { v with disk := d }).disk = d := by rw [hdone]
    refine ⟨fun p hne => ?_, ?_, fun j row p c hmem => ?_⟩
    · rw [hdisk]
      by_cases hpp : p = path
      · subst hpp
        exact .inr ⟨hpath.resolve_left hne, hstored⟩
      · exact .inl (hd p hne hpp)
    · rw [hdisk]
      by_cases hpp : path = u.partPath
      · subst hpp
        exact .inr (.inr hstored)
      · exact .inl (hmoved hpp)
    · rw [hdone] at hmem
      simp only [List.mem_append, List.mem_cons, reduceCtorEq, List.not_mem_nil, or_false] at hmem
      rcases hmem with hmem | hmem
      · exact .inl hmem
      · obtain ⟨-, -, rfl, -⟩ := Effect.stored.inj hmem
        rw [hdisk]
        exact .inr ⟨hthere, hpath⟩
  unfold settleUpload
  extract_lets digest w₁ complete declared
  have hw₁ : w₁ = v := hclose
  clear_value complete declared digest w₁
  subst hw₁
  split
  · exact failed _
  split
  · exact failed _
  obtain ⟨d, ⟨hren, hfree, hthere, hgone, hrest⟩ | hren⟩ :=
    renameFile_disk u.finalPath hpart
  · rw [hren]
    have hne : u.finalPath ≠ u.partPath := by
      rintro he
      rw [he] at hfree
      cases hpart.symm.trans hfree
    refine done d u.finalPath (.inr ((helse _ hne).symm.trans hfree)) (fun _ => hgone) ?_ ?_
    · rw [hthere]
      exact Option.some_ne_none _
    · exact fun p hp ht => (hrest p hp ht).trans (helse p hp)
  · rw [hren]
    refine done v.disk u.partPath (.inl rfl) (fun hne => absurd rfl hne) ?_ ?_
    · rw [hpart]
      exact Option.some_ne_none _
    · exact fun p hp _ => helse p hp

/-! ## The folder -/

/-- What `prepareDirectory` writes to find out whether it may. -/
def ProbeName : QString := str "/.localsend-write-test"

theorem mkpath_disk (path : QString) (w : World) : ∃ ok d,
    w.mkpath path = (ok, { w with disk := d }) ∧
      ∀ p, d p = w.disk p ∨ w.disk p = none ∧ d p = some .directory := by
  unfold mkpath
  by_cases hm : w.env.mkpath path = true
  · refine ⟨true, _, if_pos hm, fun p => ?_⟩
    split
    · rename_i hp
      exact .inr ⟨hp.1, rfl⟩
    · exact .inl rfl
  · exact ⟨false, w.disk, if_neg hm, fun _ => .inl rfl⟩

theorem openFile_cases (path : QString) (w : World) :
    w.openFile path = (true, { w with disk := Function.update w.disk path (some (.file [])) }) ∨
      w.openFile path = (false, w) := by
  unfold openFile
  split
  · exact .inl rfl
  · exact .inr rfl

/-- Getting a folder ready leaves no file behind that the system would remove, and nothing else
than the probe is touched. -/
theorem prepareDirectory_disk (w : World) :
    (∀ p content, w.prepareDirectory.2.disk p = some (.file content) →
      w.disk p = some (.file content) ∨ w.env.removes p = false) ∧
    ∀ p, w.disk p ≠ none → w.prepareDirectory.2.disk p = w.disk p ∨ ProbeName <:+ p := by
  unfold prepareDirectory
  extract_lets path probe
  have hprobe : ProbeName <:+ probe := List.suffix_append _ _
  clear_value probe
  obtain ⟨ok, d, h, hd⟩ := mkpath_disk path w
  have hmade : (∀ p content, d p = some (.file content) →
      w.disk p = some (.file content) ∨ w.env.removes p = false) ∧
      ∀ p, w.disk p ≠ none → d p = w.disk p ∨ ProbeName <:+ p := by
    refine ⟨fun p content hp => ?_, fun p hp => .inl ((hd p).resolve_right fun hn => hp hn.1)⟩
    rcases hd p with heq | ⟨-, hdir⟩
    · exact .inl (heq.symm.trans hp)
    · cases hdir.symm.trans hp
  rw [h]
  cases ok with
  | false => exact hmade
  | true =>
    simp only
    rcases openFile_cases probe { w with disk := d } with hopen | hopen
    · rw [hopen]
      obtain ⟨hother, hgone⟩ := removeFile_disk (w := { w with
        disk := Function.update d probe (some (.file [])) }) (Function.update_self probe _ _)
      have helse : ∀ p, p ≠ probe → (World.removeFile probe { w with
          disk := Function.update d probe (some (.file [])) }).disk p = d p :=
        fun p hne => (hother p hne).trans (Function.update_of_ne hne _ _)
      refine ⟨fun p content hp => ?_, fun p hp => ?_⟩
      · by_cases hpp : p = probe
        · subst hpp
          exact .inr (hgone.resolve_left fun hn => by cases hn.symm.trans hp)
        · exact hmade.1 p content ((helse p hpp).symm.trans hp)
      · by_cases hpp : p = probe
        · exact .inr (hpp ▸ hprobe)
        · exact (hmade.2 p hp).imp_left ((helse p hpp).trans ·)
    · rw [hopen]
      exact hmade

/-! ## What an act does to the files -/

section
variable [Qt] {g : Guard} {w v : World} {i : ConnId}

/-- Nothing was completed between `w` and `v`. -/
def Unstored (w v : World) : Prop := ∀ i row p content,
  Effect.stored i row p content ∈ v.log → Effect.stored i row p content ∈ w.log

/-- Whoever has an upload in `w` and is not `i` has not closed by `v`. -/
def Stay (i : Option ConnId) (w v : World) : Prop := ∀ j, some j ≠ i → w.uploads.lookup j ≠ none →
  (v.conns j).closedEmitted = (w.conns j).closedEmitted

/-- What an act does to the disk and the table of uploads. -/
inductive FileAct (g : Guard) (w v : World) : Prop
  | same : v.uploads = w.uploads → v.disk = w.disk → w.Unstored v → Stay none w v → FileAct g w v
  | others {disk : Disk} : g.files w disk → v = { w with disk := disk } → FileAct g w v
  | probe : w.pending ≠ none → v = { w with disk := w.prepareDirectory.2.disk } → FileAct g w v
  | enter {i : ConnId} {row : Nat} {path : QString} : w.Admits i row → w.isFree path = true →
      v.uploads = w.uploads.insert i ⟨row, i, path ++ PartSuffix, path⟩ →
      v.disk = Function.update w.disk (path ++ PartSuffix) (some (.file [])) →
      w.Unstored v → Stay none w v → (v.conns i).closedEmitted = false → FileAct g w v
  | ends {i : ConnId} {u : Upload} : w.uploads.lookup i = some u →
      v.uploads = w.uploads.erase i → Ends w v u → Stay (some i) w v →
      ((v.conns i).state = .responded ∨ (v.conns i).bodyComplete = true) → FileAct g w v

omit [Qt] in
theorem Unstored.refl (w : World) : w.Unstored w := fun _ _ _ _ h => h

omit [Qt] in
theorem Unstored.emit {e : Effect} (h : ∀ i row p content, e ≠ .stored i row p content)
    (hv : v.log = w.log ++ [e]) : w.Unstored v := by
  intro j row p content hmem
  rw [hv] at hmem
  rcases List.mem_append.1 hmem with hmem | hmem
  · exact hmem
  · exact absurd (List.mem_singleton.1 hmem).symm (h _ _ _ _)

omit [Qt] in
theorem Stay.of_update {c : HttpConnection} (hv : v.conns = Function.update w.conns i c)
    (hc : w.Stays i c) : Stay none w v := by
  intro j _ hj
  rw [hv]
  by_cases hji : j = i
  · subst hji
    rw [Function.update_self]
    exact hc hj
  · rw [Function.update_of_ne hji]

theorem Act.fileAct (ha : Act g w v) (h : w.Inv) : FileAct g w v := by
  have stay : ∀ {v : World}, v.conns = w.conns → Stay none w v := by
    intro v hv j _ _
    rw [hv]
  have still : ∀ {v : World}, v.uploads = w.uploads → v.disk = w.disk → v.log = w.log →
      v.conns = w.conns → FileAct g w v := by
    intro v hup hd hl hc
    refine .same hup hd (fun j row p content hmem => ?_) (stay hc)
    rwa [hl] at hmem
  have tells : ∀ {v : World} {e : Effect}, v.uploads = w.uploads → v.disk = w.disk →
      v.log = w.log ++ [e] → (∀ j row p content, e ≠ .stored j row p content) →
      v.conns = w.conns → FileAct g w v :=
    fun hup hd hl he hc => .same hup hd (.emit he hl) (stay hc)
  have one : ∀ {c : HttpConnection} {k : ConnId}, w.Stays k c → FileAct g w (w.setConn k c) :=
    fun hc => .same rfl rfl (.refl w) (.of_update rfl hc)
  have ended : ∀ {v : World} {k : ConnId} {u : Upload} {c : HttpConnection},
      w.uploads.lookup k = some u → v.uploads = w.uploads.erase k → Ends w v u →
      v.conns = Function.update w.conns k c → (c.state = .responded ∨ c.bodyComplete = true) →
      FileAct g w v := by
    intro v k u c hu hup hends hv hc
    refine .ends hu hup hends (fun j hj _ => ?_) ?_
    · rw [hv, Function.update_of_ne fun he => hj (congrArg some he)]
    · rw [hv, Function.update_self]
      exact hc
  cases ha with
  | files hd => exact .others hd rfl
  | probe hp hd => exact .probe hp (by rw [hd])
  | conns _ hs => exact .same rfl rfl (.refl w) fun j _ hj => hs j hj
  | read _ _ hs => exact one hs
  | complete => exact one fun _ => rfl
  | reply _ _ _ hs => exact one hs
  | connect _ address certificate =>
    refine .same rfl rfl (.refl w) fun j _ hj => ?_
    obtain ⟨u, hu⟩ := Option.ne_none_iff_exists'.1 hj
    rw [show (w.connect address certificate).conns j = w.conns j from
      Function.update_of_ne (Nat.ne_of_lt (h.served j u hu).born) _ _]
  | @wrote k f data _ hb hsink _ _ =>
    obtain ⟨rfl, u, hu⟩ := h.streaming k f hsink hb
    obtain ⟨file, hf, -⟩ := (h.served f u hu).handle
    rw [write_eq hf]
    exact .same rfl rfl (.emit (fun _ _ _ _ => Effect.noConfusion) rfl)
      (.of_update rfl fun _ => rfl)
  | @short k f data c _ hb hsink _ _ _ hs =>
    obtain ⟨rfl, u, hu⟩ := h.streaming k f hsink hb
    obtain ⟨file, hf, -⟩ := (h.served f u hu).handle
    rw [write_eq hf]
    exact .same rfl rfl (.emit (fun _ _ _ _ => Effect.noConfusion) rfl) (.of_update rfl hs)
  | park => exact tells rfl rfl rfl (fun _ _ _ _ => Effect.noConfusion) rfl
  | prompt => exact tells rfl rfl rfl (fun _ _ _ _ => Effect.noConfusion) rfl
  | @openSession k directory =>
    obtain ⟨id, d, t, tokens, heq, -⟩ := openSession_eq w k directory
    rw [heq]
    refine .same rfl rfl (fun j row p content hmem => ?_) (stay rfl)
    simpa [emit, releasePending] using hmem
  | @enter k row path _ hadm hfree hopen =>
    have hdisk : (w.openFile (path ++ PartSuffix)).2 = { w with
        disk := Function.update w.disk (path ++ PartSuffix) (some (.file [])) } := by
      rcases openFile_cases (path ++ PartSuffix) w with ho | ho
      · rw [ho]
      · rw [ho] at hopen
        cases hopen
    rw [hdisk]
    refine .enter hadm hfree rfl rfl (fun j r p content hmem => ?_)
      (.of_update (c := { w.conns k with
        sink := some k
        maxBodyBytes := (w.transfer.entry row).size }) rfl fun _ => rfl) ?_
    · simpa [beginUpload, setFileStatus, World.setConn] using hmem
    · rw [conns_setConn]
      exact hadm.up
  | mark => exact tells rfl rfl rfl (fun _ _ _ _ => Effect.noConfusion) rfl
  | @drop k u c error hu _ hst =>
    obtain ⟨f, hf, hp, -⟩ := (h.served k u hu).handle
    have hends := dropUpload_ends k error ((h.served k u hu).file.symm ▸ hf) hp
    obtain ⟨d, hd⟩ := dropUpload_eq k u error w
    rw [hd] at hends ⊢
    exact ended hu rfl ⟨hends.elsewhere, hends.part, hends.stored⟩ rfl (.inl hst)
  | @settle k u hu _ hc =>
    obtain ⟨f, hf, hp, -⟩ := (h.served k u hu).handle
    have hends := settleUpload_ends (w := { w with uploads := w.uploads.erase k }) k
      ((h.served k u hu).file.symm ▸ hf) hp
    obtain ⟨d, t, l, heq⟩ := settleUpload_eq k u { w with uploads := w.uploads.erase k }
    rw [heq] at hends ⊢
    refine ended (c := w.conns k) hu rfl ⟨hends.elsewhere, hends.part, hends.stored⟩ ?_ (.inr hc)
    rw [Function.update_eq_self]
  | remember =>
    unfold rememberPeer
    split
    · exact tells rfl rfl rfl (fun _ _ _ _ => Effect.noConfusion) rfl
    · exact still rfl rfl rfl rfl
  | record =>
    unfold writeHistory
    split
    · exact tells rfl rfl rfl (fun _ _ _ _ => Effect.noConfusion) rfl
    · exact still rfl rfl rfl rfl
  | finish =>
    refine .same rfl rfl (fun j row p content hmem => ?_) (stay rfl)
    simpa [emit, closeSession] using hmem
  | posted => exact tells rfl rfl rfl (fun _ _ _ _ => Effect.noConfusion) rfl
  | _ => exact still rfl rfl rfl rfl

/-- What an act writes down: only a prepare-upload that is taken begins a transfer, and only an
upload that arrives completes a file. -/
theorem Act.entries (ha : Act g w v) (h : w.Inv) : ∃ l, v.log = w.log ++ l ∧ ∀ e ∈ l,
    (e.asked? ≠ none → ∃ i, g.park (w.conns i)) ∧ (e.stored? ≠ none → ∃ i, g.finish w i) := by
  have silent : ∀ {v : World}, v.log = w.log → ∃ l, v.log = w.log ++ l ∧ ∀ e ∈ l,
      (e.asked? ≠ none → ∃ i, g.park (w.conns i)) ∧ (e.stored? ≠ none → ∃ i, g.finish w i) :=
    fun hl => ⟨[], by rw [hl, List.append_nil], fun _ he => absurd he List.not_mem_nil⟩
  have told : ∀ {v : World} (l : List Effect), v.log = w.log ++ l →
      (∀ e ∈ l, e.asked? = none ∧ e.stored? = none) → ∃ l, v.log = w.log ++ l ∧ ∀ e ∈ l,
        (e.asked? ≠ none → ∃ i, g.park (w.conns i)) ∧ (e.stored? ≠ none → ∃ i, g.finish w i) :=
    fun l hl he => ⟨l, hl, fun e hmem =>
      ⟨fun hne => absurd (he e hmem).1 hne, fun hne => absurd (he e hmem).2 hne⟩⟩
  have one : ∀ {v : World} {e : Effect}, v.log = w.log ++ [e] → e.asked? = none ∧ e.stored? = none →
      ∃ l, v.log = w.log ++ l ∧ ∀ e ∈ l,
        (e.asked? ≠ none → ∃ i, g.park (w.conns i)) ∧ (e.stored? ≠ none → ∃ i, g.finish w i) := by
    intro v e hl he
    refine told [e] hl fun e' hmem => ?_
    rw [List.mem_singleton.1 hmem]
    exact he
  cases ha with
  | @wrote k f data =>
    unfold World.write
    split
    · exact silent rfl
    · exact one rfl ⟨rfl, rfl⟩
  | @short k f data =>
    unfold World.write
    split
    · exact silent rfl
    · exact one rfl ⟨rfl, rfl⟩
  | @park k _ _ _ _ _ _ hg =>
    refine ⟨_, rfl, fun e he => ?_⟩
    rw [List.mem_singleton.1 he]
    exact ⟨fun _ => ⟨k, hg⟩, fun hne => absurd rfl hne⟩
  | prompt => exact one rfl ⟨rfl, rfl⟩
  | @openSession k directory =>
    obtain ⟨id, n, t, tokens, heq, -⟩ := openSession_eq w k directory
    rw [heq]
    refine told [.issued id (w.conns k).peerAddress tokens, .started] (List.append_assoc _ _ _) ?_
    simp [Effect.stored?]
  | @enter k row path =>
    obtain ⟨disk, hd⟩ := entered_eq w k row path { w.conns k with
      sink := some k
      maxBodyBytes := (w.transfer.entry row).size }
    rw [hd]
    refine told [.opened k (w.conns k) row, .fileStatus row .transferring]
      (List.append_assoc _ _ _) ?_
    simp [Effect.stored?]
  | mark => exact one rfl ⟨rfl, rfl⟩
  | @drop k u c error =>
    obtain ⟨disk, hd⟩ := dropUpload_eq k u error w
    rw [hd]
    exact one rfl ⟨rfl, rfl⟩
  | @settle k u hu hst hc hfinish =>
    have hs := h.served k u hu
    obtain ⟨f, hf, hp, -⟩ := hs.handle
    obtain ⟨d, ⟨status, error, -, heq⟩ | ⟨path, content, -, -, harrived, -, heq⟩⟩ :=
      settleUpload_spec (w := { w with uploads := w.uploads.erase k }) k (hs.file.symm ▸ hf) hp
    · rw [heq]
      exact one rfl ⟨rfl, rfl⟩
    · have hfinished : g.finish w k := hfinish ((arrived_uploads _).1 harrived)
      rw [heq]
      refine ⟨[.stored k u.row path content, .fileStatus u.row .done], List.append_assoc _ _ _,
        fun e he => ⟨fun hne => ?_, fun _ => ⟨k, hfinished⟩⟩⟩
      rcases List.mem_pair.1 he with rfl | rfl
      · exact absurd rfl hne
      · exact absurd rfl hne
  | remember =>
    unfold rememberPeer
    split
    · exact one rfl ⟨rfl, rfl⟩
    · exact silent rfl
  | record =>
    unfold writeHistory
    split
    · exact one rfl ⟨rfl, rfl⟩
    · exact silent rfl
  | finish destination =>
    refine told [.ended, .transferFinished w.transfer.stateName w.transfer.completedCount destination]
      (List.append_assoc _ _ _) ?_
    simp [Effect.stored?]
  | posted => exact one rfl ⟨rfl, rfl⟩
  | _ => exact silent rfl

theorem Act.grows (ha : Act g w v) (h : w.Inv) : w.log <+: v.log := by
  obtain ⟨l, hl, -⟩ := ha.entries h
  rw [hl]
  exact List.prefix_append _ _

end

end World

end LocalSend
