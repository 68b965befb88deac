import LocalSend.Qt.FileName
import LocalSend.Receive.Proof.Folder

/-!
# The names files are stored under

A name is cut twice. The cut that spares the extension comes second and counts what the text filter
has cut already, so a long name loses its extension unless what is left of it ends in the same one
by chance (`extension_kept_iff`).

Both cuts count code units where file systems count bytes, and the number and the suffix of the part
file come on top, so only what is left of a name decides whether it fits (`stored_fits_iff`).
-/

set_option autoImplicit false

namespace LocalSend

variable {clean stem extension : QString}

/-! ## What a number does to a name -/

def numberTag (n : Nat) : QString := str " (" ++ QString.number n ++ str ")"

theorem length_number_le_iff (n : Nat) {k : Nat} (hk : 0 < k) :
    (QString.number n).length ≤ k ↔ n < 10 ^ k := by
  rw [QString.number_eq, List.length_map]
  exact Nat.length_toDigits_le_iff (by decide) hk

theorem length_numberTag (n : Nat) : (numberTag n).length = (QString.number n).length + 3 := by
  have hopen : (str " (").length = 2 := by decide
  have hclose : (str ")").length = 1 := by decide
  simp only [numberTag, List.length_append, hopen, hclose]
  omega

theorem numberTag_undotted (n : Nat) : 46 ∉ numberTag n := by
  intro hmem
  simp only [numberTag, List.mem_append] at hmem
  rcases hmem with (hmem | hmem) | hmem
  · exact absurd hmem (by decide)
  · exact QString.number_plain (by decide) hmem
  · exact absurd hmem (by decide)

theorem numberTag_ascii {n : Nat} {c : QChar} (h : c ∈ numberTag n) : c.toNat < 0x80 := by
  simp only [numberTag, List.mem_append] at h
  rcases h with (h | h) | h
  · have hopen : c = 32 ∨ c = 40 := by simpa [str] using h
    rcases hopen with rfl | rfl <;> decide
  · have hdigit := QString.isDigit_iff.1 (QString.number_digits h)
    omega
  · have hclose : c = 41 := by simpa [str] using h
    rw [hclose]
    decide

theorem numberedName_undotted (hslash : 47 ∉ clean) (h : 46 ∉ clean) (n : Nat) :
    numberedName clean n = clean ++ numberTag n := by
  unfold numberedName numberTag
  rw [QFileInfo.completeBaseName_undotted hslash h, QFileInfo.suffix_undotted hslash h]
  simp

/-- A name that is nothing but an extension is all stem. -/
theorem numberedName_hidden (hslash : 47 ∉ clean) (h : Lib.Splits 46 clean [] extension) (n : Nat) :
    numberedName clean n = clean ++ numberTag n := by
  unfold numberedName numberTag
  rw [QFileInfo.completeBaseName_splits hslash h]
  simp

theorem numberedName_splits (hslash : 47 ∉ clean) (h : Lib.Splits 46 clean stem extension)
    (hstem : stem ≠ []) (n : Nat) : numberedName clean n =
      stem ++ numberTag n ++ (if extension = [] then [] else str "." ++ extension) := by
  unfold numberedName numberTag
  rw [QFileInfo.completeBaseName_splits hslash h, QFileInfo.suffix_splits hslash h]
  simp [hstem]

/-- The extension stays behind the number. -/
theorem numberedName_extension (hslash : 47 ∉ clean) (h : Lib.Splits 46 clean stem extension)
    (hstem : stem ≠ []) (hextension : extension ≠ []) (n : Nat) :
    str "." ++ extension <:+ numberedName clean n := by
  rw [numberedName_splits hslash h hstem, if_neg hextension]
  exact List.suffix_append _ _

/-- Where the number goes, and that a dot at the end goes away. -/
theorem numberedName_shape (h : Component clean) : ∃ front back,
    (∀ n, numberedName clean n = front ++ numberTag n ++ back) ∧
    (∀ c ∈ back.head?, QString.isLowSurrogate c = false) ∧
    clean = front ++ (if clean.getLast? = some 46 then str "." else back) ∧
    (clean.getLast? = some 46 → back = []) := by
  by_cases hdot : 46 ∈ clean
  · obtain ⟨stem, extension, hsplit⟩ := Lib.exists_splits hdot
    have hlast : clean.getLast? = some 46 ↔ extension = [] := by
      rw [hsplit.eq]
      cases extension with
      | nil => simp
      | cons c extension =>
        have hne : (c :: extension).getLast? ≠ some 46 := fun hmem =>
          hsplit.last (List.mem_of_getLast? hmem)
        simpa [List.getLast?_append] using hne
    by_cases hstem : stem = []
    · subst hstem
      have hextension : extension ≠ [] := by
        intro hnil
        exact h.notDot (by rw [hsplit.eq, hnil]; rfl)
      refine ⟨clean, [], fun n => ?_, by simp, ?_, fun _ => rfl⟩
      · rw [numberedName_hidden h.noSlash hsplit, List.append_nil]
      · rw [if_neg (mt hlast.1 hextension), List.append_nil]
    · refine ⟨stem, if extension = [] then [] else str "." ++ extension,
        numberedName_splits h.noSlash hsplit hstem, ?_, ?_, fun hdot => if_pos (hlast.1 hdot)⟩
      · split
        · simp
        · intro c hc
          have hc : c = 46 := by simpa [str] using hc.symm
          rw [hc]
          decide
      · by_cases hextension : extension = []
        · rw [if_pos (hlast.2 hextension), hsplit.eq, hextension]
          rfl
        · rw [if_neg (mt hlast.1 hextension), if_neg hextension, hsplit.eq]
          rfl
  · have hlast : clean.getLast? ≠ some 46 := fun hmem => hdot (List.mem_of_getLast? hmem)
    refine ⟨clean, [], fun n => ?_, by simp, ?_, fun _ => rfl⟩
    · rw [numberedName_undotted h.noSlash hdot, List.append_nil]
    · rw [if_neg hlast, List.append_nil]

/-! ## Every name may be taken -/

namespace World

theorem reserveFilePath_free (w : World) (directory fileName : QString) :
    ({ w with disk := fun _ => none } : World).reserveFilePath directory fileName =
      directory ++ str "/" ++ sanitizeFileName fileName := by
  unfold reserveFilePath
  exact if_pos rfl

/-- A name and its numbers below 100. -/
def takenNames (clean : QString) : List QString := clean :: (List.range 100).map (numberedName clean)

/-- The folder where these are taken. -/
def crowdedDisk (directory clean : QString) : Disk := fun path =>
  if (takenNames clean).any (directory ++ str "/" ++ · == path) then some (.file []) else none

variable {directory : QString} {w : World}

theorem crowdedDisk_exists {name : QString} :
    ({ w with disk := crowdedDisk directory clean } : World).fileExists (directory ++ str "/" ++ name) =
      true ↔ name ∈ takenNames clean := by
  have hmem : (takenNames clean).any (directory ++ str "/" ++ · == directory ++ str "/" ++ name) =
      true ↔ name ∈ takenNames clean := by
    simp
  rw [← hmem]
  show (crowdedDisk directory clean (directory ++ str "/" ++ name)).isSome = true ↔ _
  unfold crowdedDisk
  split <;> simp_all

/-- The numbers from 100 on make longer names. -/
theorem takenNames_length (h : Component clean) {n : Nat} (hn : 100 ≤ n) {name : QString}
    (hname : name ∈ takenNames clean) : name.length < (numberedName clean n).length := by
  obtain ⟨front, back, hnumbered, -, hclean, hback⟩ := numberedName_shape h
  have hdigits : ¬ (QString.number n).length ≤ 2 := by
    rw [length_number_le_iff n (by decide)]
    omega
  rw [hnumbered]
  simp only [List.length_append, length_numberTag]
  rcases List.mem_cons.1 hname with heq | hmem
  · have hlength : clean.length ≤ front.length + back.length + 1 := by
      rw [hclean]
      split
      · have hdot : (str ".").length = 1 := by decide
        simp only [List.length_append, hdot]
        omega
      · simp only [List.length_append]
        omega
    rw [heq]
    omega
  · obtain ⟨m, hm, heq⟩ := List.mem_map.1 hmem
    have hshort := (length_number_le_iff m (k := 2) (by decide)).2 (by simpa using hm)
    rw [← heq, hnumbered]
    simp only [List.length_append, length_numberTag]
    omega

/-- Where a name and its numbers below 100 are taken, a file gets a number of three digits. -/
theorem reserveFilePath_crowded (w : World) (directory fileName : QString) :
    ∃ n, 100 ≤ n ∧ n ≤ 999 ∧
      ({ w with disk := crowdedDisk directory (sanitizeFileName fileName) } : World).reserveFilePath
        directory fileName =
      directory ++ str "/" ++ numberedName (sanitizeFileName fileName) n := by
  have hcomponent := sanitizeFileName_component fileName
  generalize hclean : sanitizeFileName fileName = clean at hcomponent
  have htaken : ∀ {name}, name ∈ takenNames clean →
      ({ w with disk := crowdedDisk directory clean } : World).isFree (directory ++ str "/" ++ name) =
        false := by
    intro name hname
    unfold isFree
    rw [crowdedDisk_exists.2 hname]
    rfl
  have hfree : ({ w with disk := crowdedDisk directory clean } : World).isFree
      (directory ++ str "/" ++ numberedName clean 100) = true := by
    have habsent : ∀ {name}, (numberedName clean 100).length ≤ name.length →
        ({ w with disk := crowdedDisk directory clean } : World).fileExists
          (directory ++ str "/" ++ name) = false := by
      intro name hlength
      refine Bool.eq_false_iff.2 fun hexists => ?_
      have hlt := takenNames_length hcomponent (Nat.le_refl 100) (crowdedDisk_exists.1 hexists)
      omega
    unfold isFree
    rw [List.append_assoc (directory ++ str "/"), habsent (Nat.le_refl _),
      habsent (by rw [List.length_append]; omega)]
    rfl
  rcases reserveFilePath_cases hclean rfl with
    ⟨name, hpath, hname, hcase⟩ | ⟨-, -, hnone⟩
  · rw [hpath] at hname
    rcases hcase with heq | ⟨n, -, hhigh, heq⟩
    · rw [heq, htaken (by simp [takenNames])] at hname
      exact Bool.noConfusion hname
    · by_cases hn : n < 100
      · rw [heq, htaken (List.mem_cons_of_mem _ (List.mem_map_of_mem (by simpa using hn)))] at hname
        exact Bool.noConfusion hname
      · exact ⟨n, by omega, hhigh, hpath.trans (by rw [heq])⟩
  · rw [hnone 100 (by decide) (by decide)] at hfree
    exact Bool.noConfusion hfree

end World

/-! ## Extensions -/

/-- A name of which only the cut takes something away, and its extension. -/
structure DottedName where
  stem : QString
  extension : QString
  nonempty : stem ≠ []
  undotted : 46 ∉ extension
  length : 1 ≤ extension.length ∧ extension.length ≤ 20
  plain : ∀ c ∈ stem ++ str "." ++ extension, Protocol.isKept c = true ∧ c ≠ 47 ∧ c ≠ 92
  tight : Protocol.Tight (stem ++ str "." ++ extension)

namespace DottedName

def text (name : DottedName) : QString := name.stem ++ str "." ++ name.extension

/-- What the first cut leaves. -/
def cut (name : DottedName) : QString := QString.trimmed (name.text.take 200)

variable (name : DottedName)

theorem extension_ne_nil : name.extension ≠ [] := by
  intro hnil
  have hlength := name.length.1
  rw [hnil, List.length_nil] at hlength
  omega

theorem mem_cut {c : QChar} (h : c ∈ name.cut) :
    Protocol.isKept c = true ∧ c ≠ 47 ∧ c ≠ 92 := by
  have hmem := (Lib.trim_sublist QString.isSpace (name.text.take 200)).subset h
  exact name.plain c ((List.take_sublist _ _).subset hmem)

theorem noSlash_cut : 47 ∉ name.cut := fun h => (name.mem_cut h).2.1 rfl

theorem plainName_text : plainName name.text = name.cut := by
  have hkept : name.text.filter Protocol.isKept = name.text :=
    List.filter_eq_self.2 fun c hc => (name.plain c hc).1
  have hsanitize : Protocol.sanitizeText name.text 200 = name.cut := by
    unfold Protocol.sanitizeText cut
    rw [Protocol.keepClean_eq, hkept]
  unfold plainName
  rw [hsanitize, QFileInfo.fileName_plain name.noSlash_cut]
  refine (List.map_congr_left fun c hc => ?_).trans (List.map_id _)
  have hplain := (name.mem_cut hc).2
  rw [if_neg (by simp [hplain])]
  rfl

theorem cut_of_short (h : name.text.length ≤ 200) : name.cut = name.text := by
  unfold cut
  rw [List.take_of_length_le h, Protocol.trimmed_eq]
  exact Lib.trim_of_tight name.tight

theorem splits_text : Lib.Splits 46 name.text name.stem name.extension :=
  ⟨by simp [text, str], name.undotted⟩

/-- The name is short, or what is left of it ends in the same extension by chance. -/
def Spared : Prop :=
  name.text.length ≤ 200 ∨
    str "." ++ name.extension <:+ name.cut ∧ name.cut ≠ str "." ++ name.extension

/-- What is left of the name has a stem and the same extension. -/
theorem spared_iff : name.Spared ↔
    ∃ stem, stem ≠ [] ∧ Lib.Splits 46 name.cut stem name.extension := by
  constructor
  · rintro (hshort | ⟨⟨stem, hstem⟩, hne⟩)
    · exact ⟨name.stem, name.nonempty, name.cut_of_short hshort ▸ name.splits_text⟩
    · refine ⟨stem, fun hnil => hne ?_, ?_, name.undotted⟩
      · rw [← hstem, hnil, List.nil_append]
      · rw [← hstem]
        rfl
  · intro ⟨stem, hstem, hsplit⟩
    refine .inr ⟨⟨stem, hsplit.eq.symm⟩, fun heq => hstem ?_⟩
    have hhidden : Lib.Splits 46 name.cut [] name.extension := ⟨heq, name.undotted⟩
    exact (hhidden.unique hsplit).1

theorem sanitize_spared (h : name.Spared) : sanitizeFileName name.text = name.cut := by
  obtain ⟨stem, hstem, hsplit⟩ := name.spared_iff.1 h
  have hlength : 3 ≤ name.cut.length := by
    have hpos := List.length_pos_iff.2 hstem
    have hext := name.length.1
    rw [hsplit.eq, List.length_append, List.length_cons]
    omega
  rw [sanitizeFileName_eq, plainName_text, if_neg]
  rintro (hname | hname | hname) <;> rw [hname] at hlength <;> exact absurd hlength (by decide)

end DottedName

open World

/-- Whatever is in the folder, a name keeps its extension, if and only if it is not cut or is cut
behind the same extension. -/
theorem extension_kept_iff (name : DottedName) (w : World) :
    (∀ disk directory stored, ({ w with disk := disk } : World).reserveFilePath directory name.text =
      directory ++ str "/" ++ stored → str "." ++ name.extension <:+ stored) ↔ name.Spared := by
  constructor
  · intro h
    have hplain := h _ _ _ (reserveFilePath_free w [] name.text)
    have hclean : sanitizeFileName name.text = name.cut := by
      rw [sanitizeFileName_eq, name.plainName_text] at hplain ⊢
      split at hplain
      · -- the name that stands for a missing one has no extension
        have hundotted : 46 ∉ str "received-file" := by decide
        exact absurd hplain (Lib.not_suffix_of_not_mem hundotted _)
      · rw [if_neg ‹_›]
    rw [hclean] at hplain
    refine .inr ⟨hplain, fun hhidden => ?_⟩
    -- nothing but the extension is left, and a number goes behind it
    obtain ⟨n, -, -, hnumber⟩ := reserveFilePath_crowded w [] name.text
    have hsuffix := h _ _ _ hnumber
    have hsplit : Lib.Splits 46 name.cut [] name.extension := ⟨hhidden, name.undotted⟩
    rw [hclean, numberedName_hidden name.noSlash_cut hsplit] at hsuffix
    have hsplit : Lib.Splits 46 (name.cut ++ numberTag n) [] (name.extension ++ numberTag n) := by
      refine ⟨by rw [hhidden]; rfl, fun hmem => ?_⟩
      exact (List.mem_append.1 hmem).elim name.undotted (numberTag_undotted n)
    have heq := congrArg List.length ((hsplit.suffix_iff name.undotted).1 hsuffix)
    rw [List.length_append, length_numberTag] at heq
    omega
  · intro h disk directory stored hstored
    obtain ⟨stem, hstem, hsplit⟩ := name.spared_iff.1 h
    rcases reserveFilePath_cases (name.sanitize_spared h) hstored with
      ⟨found, hpath, -, hfound⟩ | ⟨hnil, -, -⟩
    · rw [List.append_cancel_left hpath]
      rcases hfound with heq | ⟨n, -, -, heq⟩
      · rw [heq]
        exact ⟨stem, hsplit.eq.symm⟩
      · rw [heq]
        exact numberedName_extension name.noSlash_cut hsplit hstem name.extension_ne_nil n
    · simp [str] at hnil

/-- Two hundred letters and an extension. -/
def longPhoto : DottedName where
  stem := List.replicate 200 97
  extension := str "jpg"
  nonempty := by decide
  undotted := by decide
  length := by decide
  plain c hc := by
    rw [List.append_assoc] at hc
    rcases List.mem_append.1 hc with hc | hc
    · rw [List.eq_of_mem_replicate hc]
      decide
    · have hc : c = 46 ∨ c = 106 ∨ c = 112 ∨ c = 103 := by simpa [str] using hc
      rcases hc with rfl | rfl | rfl | rfl <;> decide
  tight := by
    constructor <;> intro c hc
    · have hfirst : (List.replicate 200 97 ++ str "." ++ str "jpg").head? = some (97 : QChar) := rfl
      rw [Option.some.inj ((Option.mem_def.1 hc).symm.trans hfirst)]
      decide
    · have hlast : (List.replicate 200 97 ++ str "." ++ str "jpg").getLast? = some (103 : QChar) := by
        decide +kernel
      rw [Option.some.inj ((Option.mem_def.1 hc).symm.trans hlast)]
      decide

theorem long_name_loses_extension :
    ¬ ∀ (name : DottedName) (w : World) (directory stored : QString),
      w.reserveFilePath directory name.text = directory ++ str "/" ++ stored →
        str "." ++ name.extension <:+ stored := by
  intro h
  have hstored := h longPhoto _ _ _
    (reserveFilePath_free (fresh .trusting .obliging countingSource) (str "/d") longPhoto.text)
  revert hstored
  decide +kernel

/-! ## Bytes -/

/-- What is left of a name before backslashes and the names of folders are replaced. -/
def keptName (name : QString) : QString :=
  QFileInfo.fileName (Lib.sieve Protocol.isKept QString.isSpace 200 name)

/-- Three digits in brackets and the suffix of a part file fit behind it, the number in the place of
a dot at the end. -/
def RoomForNumber (name : QString) : Prop :=
  (QString.toUtf8 (keptName name)).length ≤ if (keptName name).getLast? = some 46 then 245 else 244

theorem plainName_kept (name : QString) :
    plainName name = (keptName name).map fun c => if c = 92 ∨ c = 47 then 95 else c := by
  unfold plainName keptName
  rw [Protocol.sanitizeText_eq_sieve]

theorem length_toUtf8_plainName (name : QString) :
    (QString.toUtf8 (plainName name)).length = (QString.toUtf8 (keptName name)).length := by
  rw [plainName_kept]
  refine QString.length_toUtf8_map (fun c => ?_) _
  by_cases hc : c = 92 ∨ c = 47
  · rw [if_pos hc]
    rcases hc with rfl | rfl <;> decide
  · exact .inl (if_neg hc)

theorem getLast?_plainName (name : QString) :
    (plainName name).getLast? = some 46 ↔ (keptName name).getLast? = some 46 := by
  rw [plainName_kept, List.getLast?_map, Option.map_eq_some_iff]
  constructor
  · intro ⟨c, hc, hdot⟩
    split at hdot
    · exact absurd hdot (by decide)
    · rw [hc, hdot]
  · intro h
    exact ⟨46, h, by decide⟩

theorem length_toUtf8_part (s : QString) :
    (QString.toUtf8 (s ++ PartSuffix)).length = (QString.toUtf8 s).length + 5 := by
  have hseam : ∀ c ∈ PartSuffix.head?, QString.isLowSurrogate c = false := by
    simp [PartSuffix, str, QString.isLowSurrogate]
  rw [QString.toUtf8_append s hseam, List.length_append]
  rfl

theorem length_toUtf8_numberedName (h : Component clean) (n : Nat) :
    (QString.toUtf8 (numberedName clean n)).length + (if clean.getLast? = some 46 then 1 else 0) =
      (QString.toUtf8 clean).length + ((QString.number n).length + 3) := by
  obtain ⟨front, back, hnumbered, hback, hclean, hdot⟩ := numberedName_shape h
  have htag : ∀ c ∈ (numberTag n).head?, QString.isLowSurrogate c = false := by
    intro c hc
    have hascii := numberTag_ascii (List.mem_of_head? hc)
    exact (Bool.or_eq_false_iff.1 (QString.not_surrogate_of_ascii hascii)).2
  have hbytes : (QString.toUtf8 (numberedName clean n)).length = (QString.toUtf8 front).length +
      ((QString.number n).length + 3) + (QString.toUtf8 back).length := by
    rw [hnumbered, QString.toUtf8_append _ hback, QString.toUtf8_append _ htag,
      List.length_append, List.length_append, ← length_numberTag,
      QString.length_toUtf8_ascii fun c => numberTag_ascii]
  by_cases hlast : clean.getLast? = some 46
  · rw [if_pos hlast] at hclean ⊢
    have hseam : ∀ c ∈ (str ".").head?, QString.isLowSurrogate c = false := by
      simp [str, QString.isLowSurrogate]
    have hfront : (QString.toUtf8 clean).length = (QString.toUtf8 front).length + 1 := by
      rw [hclean, QString.toUtf8_append _ hseam, List.length_append]
      rfl
    rw [hbytes, hfront, hdot hlast]
    simp only [QString.toUtf8, List.length_nil]
    omega
  · rw [if_neg hlast] at hclean ⊢
    have hparts : (QString.toUtf8 clean).length =
        (QString.toUtf8 front).length + (QString.toUtf8 back).length := by
      rw [hclean, QString.toUtf8_append _ hback, List.length_append]
    omega

/-- Whether every name that may be given to a file fits. -/
theorem sanitized_fits_iff (w : World) {name : QString} (hclean : sanitizeFileName name = clean) :
    (∀ disk directory stored, ({ w with disk := disk } : World).reserveFilePath directory name =
      directory ++ str "/" ++ stored → (QString.toUtf8 (stored ++ PartSuffix)).length ≤ 255) ↔
    (QString.toUtf8 clean).length ≤ if clean.getLast? = some 46 then 245 else 244 := by
  have hcomponent : Component clean := hclean ▸ sanitizeFileName_component name
  constructor
  · intro h
    obtain ⟨n, hlow, -, hpath⟩ := reserveFilePath_crowded w [] name
    have hfits := h _ _ _ hpath
    have hdigits : ¬ (QString.number n).length ≤ 2 := by
      rw [length_number_le_iff n (by decide)]
      omega
    have hbytes := length_toUtf8_numberedName hcomponent n
    rw [hclean, length_toUtf8_part] at hfits
    by_cases hlast : clean.getLast? = some 46
    · rw [if_pos hlast] at hbytes ⊢
      omega
    · rw [if_neg hlast] at hbytes ⊢
      omega
  · intro h disk directory stored hstored
    rcases reserveFilePath_cases hclean hstored with ⟨found, hpath, -, hfound⟩ | ⟨hnil, -, -⟩
    · rw [List.append_cancel_left hpath, length_toUtf8_part]
      rcases hfound with heq | ⟨n, -, hhigh, heq⟩
      · rw [heq]
        split at h <;> omega
      · have hdigits := (length_number_le_iff n (k := 3) (by decide)).2 (by omega)
        have hbytes := length_toUtf8_numberedName hcomponent n
        rw [heq]
        by_cases hlast : clean.getLast? = some 46
        · rw [if_pos hlast] at h hbytes
          omega
        · rw [if_neg hlast] at h hbytes
          omega
    · simp [str] at hnil

/-- The second cut is right about names in ASCII. -/
theorem roomForNumber_ascii {name : QString} (h : ∀ c ∈ name, c.toNat < 0x80) :
    RoomForNumber name := by
  have hsub : (keptName name).Sublist (Lib.sieve Protocol.isKept QString.isSpace 200 name) :=
    (List.rtakeWhile_suffix _ _).sublist
  have hname := hsub.trans (Lib.sieve_sublist _ _ _ _)
  have hlength := Nat.le_trans hsub.length_le (Lib.length_sieve_le _ _ _ _)
  unfold RoomForNumber
  rw [QString.length_toUtf8_ascii fun c hc => h c (hname.subset hc)]
  split <;> omega

/-- Whatever is in the folder, a file can be created under its name, if and only if what is left of
the name leaves room for a number. -/
theorem stored_fits_iff (w : World) (name : QString) :
    (∀ disk directory stored, ({ w with disk := disk } : World).reserveFilePath directory name =
      directory ++ str "/" ++ stored → (QString.toUtf8 (stored ++ PartSuffix)).length ≤ 255) ↔
    RoomForNumber name := by
  rw [sanitized_fits_iff w rfl]
  by_cases hname : plainName name = [] ∨ plainName name = str "." ∨ plainName name = str ".."
  · -- what takes its place is short, and so is it
    rw [sanitizeFileName_eq, if_pos hname]
    refine iff_of_true (by decide) ?_
    have hshort : (QString.toUtf8 (plainName name)).length ≤ 2 := by
      rcases hname with hname | hname | hname <;> rw [hname] <;> decide
    rw [length_toUtf8_plainName] at hshort
    unfold RoomForNumber
    split <;> omega
  · unfold RoomForNumber
    rw [sanitizeFileName_eq, if_neg hname, length_toUtf8_plainName]
    simp only [getLast?_plainName]

/-- The longest name there is in a script of three bytes to a character. -/
def longTitle : QString := List.replicate 85 0x8A31

theorem long_name_does_not_fit :
    ¬ ∀ (w : World) (name directory stored : QString), (QString.toUtf8 name).length ≤ 255 →
      w.reserveFilePath directory name = directory ++ str "/" ++ stored →
        (QString.toUtf8 (stored ++ PartSuffix)).length ≤ 255 := by
  intro h
  have hstored := h _ longTitle _ _ (by decide +kernel)
    (reserveFilePath_free (fresh .trusting .obliging countingSource) (str "/d") longTitle)
  revert hstored
  decide +kernel

end LocalSend
