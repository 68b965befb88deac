import LocalSend.Core.Proof.Sanitize
import LocalSend.Qt.Arg
import LocalSend.Receive.Proof.Authority
import LocalSend.Receive.Proof.Disk

/-!
# The folder and what is put into it

A name that `sanitizeFileName` returns is one component of a path (`Component`), whatever a peer
sent, and so is every name `reserveFilePath` makes of it (`stays_inside`).

To find out whether it may write to the folder, `prepareDirectory` writes to a file of a fixed name
and removes it, so a file that has that name already is lost (`prepare_spares_iff`); peers may send
one.
-/

set_option autoImplicit false

namespace LocalSend

/-! ## Names -/

/-- The name of one file in a folder. -/
structure Component (name : QString) : Prop where
  nonempty : name ≠ []
  noSlash : 47 ∉ name
  notDot : name ≠ str "."
  notDotDot : name ≠ str ".."

/-- One component further than the folder. -/
def Below (directory path : QString) : Prop :=
  ∃ name, path = directory ++ str "/" ++ name ∧ Component name

/-- A name with a character in it that the names of folders have not. -/
theorem Component.of_mem {name : QString} {c : QChar} (hc : c ∈ name) (hdot : c ≠ 46)
    (hslash : 47 ∉ name) : Component name where
  nonempty h := by
    rw [h] at hc
    exact absurd hc List.not_mem_nil
  noSlash := hslash
  notDot h := by
    rw [h] at hc
    exact hdot (List.mem_singleton.1 hc)
  notDotDot h := by
    rw [h] at hc
    rcases List.mem_cons.1 hc with heq | hc
    · exact hdot heq
    · exact hdot (List.mem_singleton.1 hc)

theorem Component.part {name : QString} (h : Component name) : Component (name ++ PartSuffix) := by
  have hmem : (112 : QChar) ∈ name ++ PartSuffix := List.mem_append_right _ (by decide)
  refine .of_mem hmem (by decide) fun hs => ?_
  rcases List.mem_append.1 hs with hs | hs
  · exact h.noSlash hs
  · exact absurd hs (by decide)

theorem Below.part {directory path : QString} (h : Below directory path) :
    Below directory (path ++ PartSuffix) := by
  obtain ⟨name, rfl, hname⟩ := h
  exact ⟨name ++ PartSuffix, List.append_assoc _ _ _, hname.part⟩

theorem Below.ne_nil {directory path : QString} (h : Below directory path) : path ≠ [] := by
  obtain ⟨name, rfl, -⟩ := h
  intro hnil
  have hslash : str "/" = [] := (List.append_eq_nil_iff.1 (List.append_eq_nil_iff.1 hnil).1).2
  exact absurd hslash (by decide)

/-- What is left of a name before names of folders are replaced. -/
def plainName (name : QString) : QString :=
  (QFileInfo.fileName (Protocol.sanitizeText name 200)).map fun c => if c = 92 ∨ c = 47 then 95 else c

theorem plainName_length (name : QString) : (plainName name).length ≤ 200 := by
  unfold plainName QFileInfo.fileName
  rw [List.length_map, List.length_reverse]
  refine Nat.le_trans (List.takeWhile_sublist _).length_le ?_
  rw [List.length_reverse]
  exact Protocol.length_sanitizeText_le name 200

/-- The cut at 200 characters is never made: the text filter has made it already. -/
theorem sanitizeFileName_eq (name : QString) : sanitizeFileName name =
    if plainName name = [] ∨ plainName name = str "." ∨ plainName name = str ".." then
      str "received-file" else plainName name := by
  unfold sanitizeFileName
  extract_lets file clean named
  have hshort : named.length ≤ 200 := by
    simp only [named]
    split
    · decide
    · exact plainName_length name
  exact if_neg (Nat.not_lt_of_le hshort)

theorem sanitizeFileName_component (name : QString) : Component (sanitizeFileName name) := by
  have hslash : 47 ∉ plainName name := by
    intro hmem
    obtain ⟨c, -, hc⟩ := List.mem_map.1 hmem
    by_cases hrep : c = 92 ∨ c = 47
    · rw [if_pos hrep] at hc
      exact absurd hc (by decide)
    · rw [if_neg hrep] at hc
      exact hrep (.inr hc)
  rw [sanitizeFileName_eq]
  split
  · exact ⟨by decide, by decide, by decide, by decide⟩
  · rename_i hname
    obtain ⟨hne, hname⟩ := not_or.1 hname
    exact ⟨hne, hslash, fun h => hname (.inl h), fun h => hname (.inr h)⟩

/-! ## Numbered names -/

/-- What `reserveFilePath` tries as number `n`. -/
def numberedName (clean : QString) (n : Nat) : QString :=
  let bare := QFileInfo.completeBaseName clean = []
  let base := if bare then clean else QFileInfo.completeBaseName clean
  let suffix := if bare then [] else QFileInfo.suffix clean
  base ++ str " (" ++ QString.number n ++ str ")" ++ (if suffix = [] then [] else str "." ++ suffix)

theorem mem_of_completeBaseName {name : QString} {c : QChar}
    (h : c ∈ QFileInfo.completeBaseName name) : c ∈ name := by
  have hname : ∀ c, c ∈ QFileInfo.fileName name → c ∈ name := by
    intro c hc
    exact List.mem_reverse.1 ((List.takeWhile_sublist _).subset (List.mem_reverse.1 hc))
  unfold QFileInfo.completeBaseName at h
  simp only at h
  split at h
  · have hdrop := (List.drop_sublist _ _).subset (List.mem_reverse.1 h)
    exact hname c (List.mem_reverse.1 ((List.dropWhile_sublist _).subset hdrop))
  · exact hname c h

theorem mem_of_suffix {name : QString} {c : QChar} (h : c ∈ QFileInfo.suffix name) : c ∈ name := by
  unfold QFileInfo.suffix at h
  simp only at h
  split at h
  · have htake := (List.takeWhile_sublist _).subset (List.mem_reverse.1 h)
    have hfile := List.mem_reverse.1 htake
    exact List.mem_reverse.1 ((List.takeWhile_sublist _).subset (List.mem_reverse.1 hfile))
  · exact absurd h List.not_mem_nil

theorem numberedName_component {clean : QString} (h : Component clean) (n : Nat) :
    Component (numberedName clean n) := by
  unfold numberedName
  extract_lets bare base suffix
  have hbase : 47 ∉ base := by
    intro hmem
    simp only [base] at hmem
    split at hmem
    · exact h.noSlash hmem
    · exact h.noSlash (mem_of_completeBaseName hmem)
  have hsuffix : 47 ∉ suffix := by
    intro hmem
    simp only [suffix] at hmem
    split at hmem
    · exact absurd hmem List.not_mem_nil
    · exact h.noSlash (mem_of_suffix hmem)
  have hparen : (40 : QChar) ∈ str " (" := by decide
  refine .of_mem (c := 40) ?_ (by decide) fun hmem => ?_
  · simp only [List.mem_append, hparen, or_true, true_or]
  · simp only [List.mem_append] at hmem
    rcases hmem with ((((hmem | hmem) | hmem) | hmem) | hmem)
    · exact hbase hmem
    · exact absurd hmem (by decide)
    · exact QString.number_plain (by decide) hmem
    · exact absurd hmem (by decide)
    · split at hmem
      · exact absurd hmem List.not_mem_nil
      · rcases List.mem_append.1 hmem with hmem | hmem
        · exact absurd hmem (by decide)
        · exact hsuffix hmem

/-! ## The folder -/

namespace World

variable {w : World}

/-- The folder that is made ready. -/
def folder (w : World) : QString :=
  w.settings.destination ++
    (if w.settings.folderPerSender ∧ w.peer.aliasName ≠ [] then
      str "/" ++ sanitizeFileName w.peer.aliasName else [])

def probePath (w : World) : QString := w.folder ++ ProbeName

/-- The folder is the destination, or one in it for the sender. -/
theorem folder_inside (w : World) :
    w.folder = w.settings.destination ∨ Below w.settings.destination w.folder := by
  unfold folder
  split
  · exact .inr ⟨_, (List.append_assoc _ _ _).symm, sanitizeFileName_component _⟩
  · exact .inl (List.append_nil _)

theorem prepareDirectory_folder (w : World) :
    w.prepareDirectory.1 = [] ∨ w.prepareDirectory.1 = w.folder := by
  unfold prepareDirectory
  extract_lets path probe
  rcases w.mkpath path with ⟨ok, v⟩
  cases ok with
  | false => exact .inl rfl
  | true =>
    rcases hopen : v.openFile probe with ⟨ok, u⟩
    cases ok with
    | false =>
      simp only [hopen]
      exact .inl trivial
    | true =>
      simp only [hopen]
      exact .inr rfl

/-- What `reserveFilePath` tries first, and then up to number 999. -/
theorem reserveFilePath_cases {directory fileName clean path : QString}
    (hclean : sanitizeFileName fileName = clean)
    (hreserved : w.reserveFilePath directory fileName = path) :
    (∃ name, path = directory ++ str "/" ++ name ∧ w.isFree path = true ∧
      (name = clean ∨ ∃ n, 2 ≤ n ∧ n ≤ 999 ∧ name = numberedName clean n)) ∨
    path = [] ∧ w.isFree (directory ++ str "/" ++ clean) = false ∧
      ∀ n, 2 ≤ n → n ≤ 999 → w.isFree (directory ++ str "/" ++ numberedName clean n) = false := by
  subst hclean
  generalize hc : sanitizeFileName fileName = clean
  obtain ⟨plain, hplain⟩ : ∃ plain, w.isFree (directory ++ str "/" ++ clean) = plain := ⟨_, rfl⟩
  cases plain with
  | true =>
    have hpath : path = directory ++ str "/" ++ clean := by
      rw [← hreserved]
      unfold reserveFilePath
      rw [hc]
      exact if_pos hplain
    exact .inl ⟨clean, hpath, hpath ▸ hplain, .inl rfl⟩
  | false =>
    have hnumbered : ∀ n, directory ++ str "/" ++ numberedName clean n = directory ++ str "/" ++
        (if QFileInfo.completeBaseName clean = [] then clean
          else QFileInfo.completeBaseName clean) ++ str " (" ++ QString.number n ++ str ")" ++
        (if (if QFileInfo.completeBaseName clean = [] then [] else QFileInfo.suffix clean) = [] then
          [] else str "." ++
            (if QFileInfo.completeBaseName clean = [] then [] else QFileInfo.suffix clean)) := by
      intro n
      simp only [numberedName, List.append_assoc]
    have hpath : path = (((List.range 998).map fun k =>
        directory ++ str "/" ++ numberedName clean (k + 2)).find? w.isFree).getD [] := by
      simp only [hnumbered]
      rw [← hreserved]
      unfold reserveFilePath
      rw [hc]
      exact if_neg (by rw [hplain]; exact Bool.false_ne_true)
    cases hfind : ((List.range 998).map fun k =>
        directory ++ str "/" ++ numberedName clean (k + 2)).find? w.isFree with
    | some candidate =>
      rw [hfind] at hpath
      have hcandidate : path = candidate := hpath
      obtain ⟨k, hk, hname⟩ := List.mem_map.1 (List.mem_of_find?_eq_some hfind)
      have hlt := List.mem_range.1 hk
      refine .inl ⟨numberedName clean (k + 2), hcandidate.trans hname.symm, ?_,
        .inr ⟨k + 2, by omega, by omega, rfl⟩⟩
      rw [hcandidate]
      exact List.find?_some hfind
    | none =>
      rw [hfind] at hpath
      refine .inr ⟨hpath, hplain, fun n hlow hhigh => ?_⟩
      have hmem : directory ++ str "/" ++ numberedName clean n ∈ (List.range 998).map fun k =>
          directory ++ str "/" ++ numberedName clean (k + 2) := by
        refine List.mem_map.2 ⟨n - 2, List.mem_range.2 (by omega), ?_⟩
        rw [Nat.sub_add_cancel hlow]
      exact Bool.eq_false_iff.2 (List.find?_eq_none.1 hfind _ hmem)

/-- Whatever a peer calls itself and its files, and whatever is on the disk, the folder is the
destination or one component further, and a reserved path is one component further than its folder,
also as a part file, and is taken neither way; none is reserved only when all names are taken. -/
theorem stays_inside (w : World) :
    (w.prepareDirectory.1 ≠ [] → w.prepareDirectory.1 = w.settings.destination ∨
      Below w.settings.destination w.prepareDirectory.1) ∧
    ∀ directory fileName,
      (w.reserveFilePath directory fileName ≠ [] →
        Below directory (w.reserveFilePath directory fileName) ∧
        Below directory (w.reserveFilePath directory fileName ++ PartSuffix) ∧
        w.fileExists (w.reserveFilePath directory fileName) = false ∧
        w.fileExists (w.reserveFilePath directory fileName ++ PartSuffix) = false) ∧
      (w.reserveFilePath directory fileName = [] →
        w.isFree (directory ++ str "/" ++ sanitizeFileName fileName) = false ∧
        ∀ n, 2 ≤ n → n ≤ 999 → w.isFree (directory ++ str "/" ++
          numberedName (sanitizeFileName fileName) n) = false) := by
  refine ⟨fun hne => ?_, fun directory fileName => ?_⟩
  · rw [(prepareDirectory_folder w).resolve_left hne]
    exact w.folder_inside
  · have hclean := sanitizeFileName_component fileName
    generalize hc : sanitizeFileName fileName = clean at hclean
    generalize hp : w.reserveFilePath directory fileName = path
    rcases reserveFilePath_cases hc hp with
      ⟨name, hpath, hfree, hname⟩ | ⟨hnil, hplain, hnumbered⟩
    · have hcomponent : Component name := by
        rcases hname with rfl | ⟨n, -, -, rfl⟩
        · exact hclean
        · exact numberedName_component hclean n
      have hbelow : Below directory path := ⟨name, hpath, hcomponent⟩
      unfold isFree at hfree
      rw [Bool.and_eq_true, Bool.not_eq_true', Bool.not_eq_true'] at hfree
      exact ⟨fun _ => ⟨hbelow, hbelow.part, hfree⟩, fun hnil => absurd hnil hbelow.ne_nil⟩
    · exact ⟨fun hne => absurd hnil hne, fun _ => ⟨hplain, hnumbered⟩⟩

/-! ## The probe -/

theorem prepareDirectory_def (w : World) : w.prepareDirectory =
    match w.mkpath w.folder with
    | (false, v) => ([], v)
    | (true, v) => match v.openFile w.probePath with
      | (false, v) => ([], v)
      | (true, v) => (w.folder, v.removeFile w.probePath) := rfl

theorem openFile_disk_ne {path p : QString} (h : p ≠ path) :
    (w.openFile path).2.disk p = w.disk p := by
  rcases openFile_cases path w with hopen | hopen
  · rw [hopen]
    exact Function.update_of_ne h _ _
  · rw [hopen]

theorem removeFile_disk_ne {path p : QString} (h : p ≠ path) :
    (w.removeFile path).disk p = w.disk p := by
  unfold removeFile
  split
  · exact Function.update_of_ne h _ _
  · rfl

/-- The disk after the folder was made ready, where a file lay. -/
theorem prepareDirectory_at {path : QString} {content : QByteArray}
    (h : w.disk path = some (.file content)) : w.prepareDirectory.2.disk path =
      if path = w.probePath ∧ w.env.mkpath w.folder = true ∧ w.env.opens w.probePath = true then
        if w.env.removes w.probePath = true then none else some (.file [])
      else some (.file content) := by
  rw [prepareDirectory_def]
  by_cases hmk : w.env.mkpath w.folder = true
  · obtain ⟨d, hd, hkeep⟩ : ∃ d, w.mkpath w.folder = (true, { w with disk := d }) ∧
        ∀ p node, w.disk p = some node → d p = some node := by
      refine ⟨_, if_pos hmk, fun p node hp => ?_⟩
      rw [hp]
      exact if_neg fun hnone => Option.some_ne_none _ hnone.1
    have hfile : d path = some (.file content) := hkeep _ _ h
    rw [hd]
    simp only
    by_cases hpath : path = w.probePath
    · subst hpath
      by_cases hopens : w.env.opens w.probePath = true
      · have hopen : openFile w.probePath { w with disk := d } =
            (true, { w with disk := Function.update d w.probePath (some (.file [])) }) := by
          refine if_pos ⟨hopens, fun hdir => ?_⟩
          cases hfile.symm.trans hdir
        rw [hopen, if_pos ⟨rfl, hmk, hopens⟩]
        simp only [removeFile]
        by_cases hremoves : w.env.removes w.probePath = true
        · rw [if_pos hremoves, if_pos ⟨hremoves, by rw [Function.update_self]; exact nofun⟩]
          exact Function.update_self ..
        · rw [if_neg hremoves, if_neg fun hboth => hremoves hboth.1]
          exact Function.update_self ..
      · have hopen : openFile w.probePath { w with disk := d } = (false, { w with disk := d }) :=
          if_neg fun hboth => hopens hboth.1
        rw [hopen, if_neg fun hall => hopens hall.2.2]
        exact hfile
    · rw [if_neg fun hall => hpath hall.1]
      have hopen := openFile_disk_ne (w := { w with disk := d }) hpath
      generalize openFile w.probePath { w with disk := d } = r at hopen
      obtain ⟨ok, v⟩ := r
      cases ok with
      | false => exact hopen.trans hfile
      | true => exact (removeFile_disk_ne hpath).trans (hopen.trans hfile)
  · have hd : w.mkpath w.folder = (false, w) := if_neg hmk
    rw [hd, if_neg fun hall => hmk hall.2.1]
    exact h

/-- Getting the folder ready leaves every file as it is, if and only if none lies where the probe is
written, or the probe is not written, or it is empty and stays. -/
theorem prepare_spares_iff (w : World) :
    (∀ path content, w.disk path = some (.file content) →
      w.prepareDirectory.2.disk path = some (.file content)) ↔
    ∀ content, w.disk w.probePath = some (.file content) →
      w.env.mkpath w.folder = false ∨ w.env.opens w.probePath = false ∨
        content = [] ∧ w.env.removes w.probePath = false := by
  constructor
  · intro hall content hfile
    have hkept := hall _ _ hfile
    rw [prepareDirectory_at hfile] at hkept
    by_cases hmk : w.env.mkpath w.folder = true
    · by_cases hopens : w.env.opens w.probePath = true
      · rw [if_pos ⟨rfl, hmk, hopens⟩] at hkept
        by_cases hremoves : w.env.removes w.probePath = true
        · rw [if_pos hremoves] at hkept
          cases hkept
        · rw [if_neg hremoves] at hkept
          exact .inr (.inr ⟨(Node.file.inj (Option.some.inj hkept)).symm,
            Bool.eq_false_iff.2 hremoves⟩)
      · exact .inr (.inl (Bool.eq_false_iff.2 hopens))
    · exact .inl (Bool.eq_false_iff.2 hmk)
  · intro hspared path content hfile
    rw [prepareDirectory_at hfile]
    by_cases hprobed : path = w.probePath ∧ w.env.mkpath w.folder = true ∧
        w.env.opens w.probePath = true
    · obtain ⟨rfl, hmk, hopens⟩ := hprobed
      rcases hspared content hfile with hno | hno | ⟨rfl, hno⟩
      · exact absurd (hno.symm.trans hmk) Bool.false_ne_true
      · exact absurd (hno.symm.trans hopens) Bool.false_ne_true
      · rw [if_pos ⟨rfl, hmk, hopens⟩, if_neg (by rw [hno]; exact Bool.false_ne_true)]
    · exact if_neg hprobed

section

/-- One file of the probe's name. -/
def probeFile : QJsonObject :=
  offer (str "laptop") (str "ab12") [(str "a", descriptor (str ".localsend-write-test") 5)]

local instance probeQt : Qt := Ascii.qt [(Ascii.json probeFile, probeFile)] []

/-- A peer sends a file of the probe's name, and offers it again. -/
def probeEvents : List Event :=
  helloEvents probeFile ++ [.connect (str "10.0.0.2") none]

/-- The file that was received is gone when the second offer is accepted. -/
theorem probe_destroys :
    let w := probeEvents.foldl step helloStart
    w.probePath = str "/d/.localsend-write-test" ∧
      w.disk (str "/d/.localsend-write-test") = some (.file (ascii "hello")) ∧
      w.prepareDirectory.2.disk (str "/d/.localsend-write-test") = none ∧
      (w.step (.readyRead 2 (post prepareTarget (Ascii.json probeFile)))).disk
        (str "/d/.localsend-write-test") = none := by
  decide +kernel

end

end World

end LocalSend
