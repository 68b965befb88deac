import LocalSend.Store.History
import LocalSend.Store.Proof.Known

/-!
# The history outlives the launch

To the history a run is a list that is kept in memory and stored as it changes (`Archive.turns`):
what is shown, and what a launch with the key would read, is what that list comes to
(`Archive.run_agrees`). So as long as every launch can read the file and every save goes through,
the list shows all that was recorded and not removed since (`history_survives`).
-/

set_option autoImplicit false

namespace LocalSend

open Lib (Backed)

theorem qint64_intCast [Qt] {n : Int} (h : n.natAbs < 2 ^ 53) : qint64 (n : Rat) = n := by
  have hwhole : (n : Rat).num.tdiv (n : Rat).den = n := Int.tdiv_one n
  unfold qint64
  rw [hwhole]
  refine if_pos ?_
  omega

theorem doubleOf_eq {n : Nat} (h : n < 2 ^ 53) : doubleOf n = ((n : Int) : Rat) := if_pos h

theorem doubleOfInt_eq {n : Int} (h : n.natAbs < 2 ^ 53) : doubleOfInt n = (n : Rat) := by
  unfold doubleOfInt
  rw [doubleOf_eq h]
  split
  · rw [← Rat.intCast_neg]
    congr 1
    omega
  · congr 1
    omega

namespace HistoryModel

/-- A record whose texts can be spelled and whose numbers a double can hold. -/
structure Record.Spelled (r : Record) : Prop where
  texts : ∀ s ∈ r.destination :: r.direction :: r.id :: r.peerAlias :: r.peerDeviceType ::
    r.status :: r.fileNames, s.WellFormed
  timestamp : r.timestamp < 2 ^ 53
  totalBytes : r.totalBytes.natAbs < 2 ^ 53

def Spelled (h : HistoryModel) : Prop := ∀ r ∈ h.records, r.Spelled

variable [Qt] [QtArrays]

/-- What is known of the JSON format: the text of an array starts with a bracket, nothing is no
array, and records that can be spelled are read back as they were. -/
structure RoundTrips : Prop where
  bracket : ∀ values, ∃ rest, QtArrays.toJson values = 91 :: rest
  nothing : QtArrays.fromJson [] = none
  records : ∀ h : HistoryModel, h.Spelled → QtArrays.fromJson h.toText = some h.document

omit [QtArrays] in
theorem Record.ofDocument_document {r : Record} (h : r.Spelled) :
    Record.ofDocument r.document = r := by
  have htime : (qint64 (doubleOf r.timestamp)).toNat = r.timestamp := by
    rw [doubleOf_eq h.timestamp, qint64_intCast (n := r.timestamp) h.timestamp]
    exact Int.toNat_natCast _
  have hbytes : qint64 (doubleOfInt r.totalBytes) = r.totalBytes := by
    rw [doubleOfInt_eq h.totalBytes, qint64_intCast h.totalBytes]
  have hnames : (r.fileNames.map QJsonValue.string).map (fun name => name.toString []) =
      r.fileNames := by
    rw [List.map_map]
    exact List.map_id _
  cases r
  simp only [Record.mk.injEq, Record.ofDocument]
  exact ⟨rfl, rfl, rfl, rfl, htime, hnames, hbytes, rfl, rfl⟩

/-- A history read back is the history. -/
theorem RoundTrips.ofText (hj : RoundTrips) {h : HistoryModel} (hs : h.Spelled) :
    HistoryModel.ofText h.toText = h := by
  unfold HistoryModel.ofText
  rw [hj.records h hs]
  have hback : h.records.map (fun r => Record.ofDocument r.document) = h.records :=
    (List.map_congr_left fun r hr => Record.ofDocument_document (hs r hr)).trans (List.map_id _)
  simp only [document, List.map_map]
  exact congrArg HistoryModel.mk hback

theorem RoundTrips.ofText_nil (hj : RoundTrips) : HistoryModel.ofText [] = ⟨[]⟩ := by
  rw [HistoryModel.ofText, hj.nothing]

omit [Qt] in
/-- The text of a history does not pass for an encrypted file. -/
theorem RoundTrips.not_sealed [Qt] (hj : RoundTrips) (h : HistoryModel) :
    ¬ SecureStore.Sealed h.toText := by
  obtain ⟨rest, hrest⟩ := hj.bracket h.document
  rw [toText, hrest]
  simp [SecureStore.Sealed, SecureStore.Magic, ascii]

omit [Qt] [QtArrays] in
theorem Spelled.apply {h : HistoryModel} (hs : h.Spelled) {e : Edit}
    (he : ∀ r, e = .append r → r.Spelled) : (e.apply h).Spelled := by
  cases e with
  | append record =>
    intro r hr
    rcases List.mem_cons.1 (List.mem_of_mem_take hr) with rfl | hr
    · exact he r rfl
    · exact hs r hr
  | removeAt row =>
    simp only [Edit.apply, removeAt]
    split
    · exact hs
    · exact fun r hr => hs r (List.mem_of_mem_eraseIdx hr)
  | clear =>
    simp only [Edit.apply, clear]
    split
    · exact hs
    · exact fun r hr => absurd hr List.not_mem_nil

end HistoryModel

namespace Install

/-- This launch can read the file, should there be one. -/
def opens (w : Install) (path : QString) : Bool :=
  match w.files path with
  | none => true
  | some contents => w.env.readable path && (w.store.isEncrypting || !SecureStore.Sealed contents)

theorem historyPath_ne (w : Install) : w.historyPath ∉ w.identityPaths ∧
    w.historyPath ∉ [w.cataloguePath] := by
  refine ⟨fun h => (identityPaths_ne w h).2 (List.mem_singleton_self _), fun h => ?_⟩
  exact absurd (List.append_cancel_left (List.mem_singleton.1 h)) (by decide)

/-- The store of the app, and the file of the history, are as they were. -/
structure Past (w v : Install) : Prop where
  directory : v.directory = w.directory
  masterKey : v.masterKey = w.masterKey
  store : v.store = w.store
  file : v.files w.historyPath = w.files w.historyPath

theorem Aside.past {paths : List QString} {w v : Install} (h : Aside paths w v)
    (hp : w.historyPath ∉ paths) : Past w v := ⟨h.directory, h.masterKey, h.store, h.files _ hp⟩

theorem Past.path {w v : Install} (h : Past w v) : v.historyPath = w.historyPath := by
  unfold historyPath
  rw [h.directory]

end Install

namespace Archive

section
variable [Qt] [QtArrays] [Gcm]

/-- The history as a launch with the key would read it. -/
def stored (w : Archive) : HistoryModel :=
  .ofText ((⟨w.install.masterKey⟩ : SecureStore).read (w.install.files w.install.historyPath))

/-- What an event is to the list that is stored. -/
def turn? [Pem] (w : Archive) : ArchiveEvent → Option (Backed.Turn HistoryModel)
  | .launch opened => some (.start ((w.install.launch opened).opens w.install.historyPath))
  | .history e =>
    if w.install.running ∧ e.saves w.history then
      some (.change e.apply (save { w with history := e.apply w.history }).1)
    else none
  | _ => none

def turns [Pem] : Archive → List ArchiveEvent → List (Backed.Turn HistoryModel)
  | _, [] => []
  | w, e :: events => (w.turn? e).toList ++ turns (w.step e) events

/-- The call of an event, while the app runs. -/
def call? (w : Archive) : ArchiveEvent → Option HistoryModel.Edit
  | .history e => if w.install.running then some e else none
  | _ => none

def made [Pem] : Archive → List ArchiveEvent → List HistoryModel.Edit
  | _, [] => []
  | w, e :: events => (w.call? e).toList ++ made (w.step e) events

/-- What is recorded can be spelled. -/
def Recordable (_ : Archive) : ArchiveEvent → Prop
  | .history (.append r) => r.Spelled
  | _ => True

/-- What is shown and what is stored is what the list comes to. -/
structure Agrees (w : Archive) (b : Backed HistoryModel) : Prop where
  key : w.install.masterKey.length = Crypto.KeyBytes
  mode : w.install.store = ⟨w.install.masterKey⟩ ∨ w.install.store = ⟨[]⟩
  live : w.history = b.live
  kept : w.stored = b.kept
  spelled : b.live.Spelled ∧ b.kept.Spelled

variable {w : Archive} {b : Backed HistoryModel}

theorem Agrees.past (h : w.Agrees b) {install : Install} (hp : Install.Past w.install install) :
    ({ w with install := install } : Archive).Agrees b where
  key := hp.masterKey ▸ h.key
  mode := by
    rw [hp.masterKey, hp.store]
    exact h.mode
  live := h.live
  kept := by
    rw [← h.kept]
    unfold stored
    simp only
    rw [hp.path, hp.file, hp.masterKey]
  spelled := h.spelled

/-- A file that this launch can read reads as it would with the key. -/
theorem Agrees.read (hj : HistoryModel.RoundTrips) (h : w.Agrees b) :
    HistoryModel.ofText (w.install.readFile w.install.historyPath) =
      if w.install.opens w.install.historyPath then w.stored else ⟨[]⟩ := by
  unfold Install.readFile Install.opens stored
  cases hf : w.install.files w.install.historyPath with
  | none => simp [SecureStore.read]
  | some contents =>
    cases hr : w.install.env.readable w.install.historyPath with
    | false => simp [SecureStore.read, hj.ofText_nil]
    | true =>
      have henc : (⟨w.install.masterKey⟩ : SecureStore).isEncrypting = true := by
        simp [SecureStore.isEncrypting, h.key]
      rcases h.mode with hm | hm
      · simp [hm, henc]
      · have hplain : (⟨[]⟩ : SecureStore).isEncrypting = false := rfl
        by_cases hs : SecureStore.Sealed contents
        · simp [hm, hplain, SecureStore.read, hs, hj.ofText_nil]
        · simp [hm, hplain, SecureStore.read, hs]

theorem Agrees.launch [Pem] (hj : HistoryModel.RoundTrips) (h : w.Agrees b) (opened : Bool) :
    (w.step (.launch opened)).Agrees (b.turn ⟨[]⟩
      (.start ((w.install.launch opened).opens w.install.historyPath))) := by
  obtain ⟨v, hv, ha⟩ := Install.launch_eq w.install opened
  have hpast : Install.Past { w.install with
      running := true
      store := ⟨if opened then w.install.masterKey else []⟩
      identity := Install.noIdentity } v.loadKnown :=
    have hpast := ha.past (Install.historyPath_ne w.install).1
    ⟨hpast.directory, hpast.masterKey, hpast.store, hpast.file⟩
  have hstarted : ({ w with install := { w.install with
      running := true
      store := ⟨if opened then w.install.masterKey else []⟩
      identity := Install.noIdentity } } : Archive).Agrees b := by
    refine ⟨h.key, ?_, h.live, h.kept, h.spelled⟩
    cases opened
    · exact .inr rfl
    · exact .inl rfl
  have hlaunched := hstarted.past hpast
  rw [← hv] at hlaunched
  have hread := hlaunched.read hj
  have hpath : (w.install.launch opened).historyPath = w.install.historyPath := by
    rw [hv]
    exact hpast.path
  refine ⟨hlaunched.key, hlaunched.mode, ?_, hlaunched.kept, ?_⟩
  · rw [hlaunched.kept, hpath] at hread
    simp only [Archive.step, load, hpath]
    exact hread
  · refine ⟨?_, h.spelled.2⟩
    simp only [Backed.turn]
    split
    · exact h.spelled.2
    · exact fun r hr => absurd hr List.not_mem_nil

/-- A save stores the list, or changes nothing. -/
theorem Agrees.save (hj : HistoryModel.RoundTrips) (hg : Crypto.Lawful) (h : w.Agrees b) :
    w.save.2.Agrees ⟨b.live, if w.save.1 then b.live else b.kept⟩ := by
  have ha := Install.writeFile_aside (List.mem_singleton_self w.install.historyPath)
    w.history.toText w.install
  have hstored : w.save.2.stored = if w.save.1 then b.live else b.kept := by
    have hpath : w.save.2.install.historyPath = w.install.historyPath := rfl
    have hmaster : w.save.2.install.masterKey = w.install.masterKey := ha.masterKey
    cases hok : w.save.1 with
    | false =>
      have hfiles : w.save.2.install.files = w.install.files := Install.writeFile_failed hok
      rw [stored, hpath, hmaster, hfiles, if_neg Bool.false_ne_true]
      exact h.kept
    | true =>
      obtain ⟨payload, hp, hwrite⟩ := SecureStore.write_of_ok hok
      have hfile : w.save.2.install.files w.install.historyPath = some payload :=
        (congrFun (congrArg Prod.snd hwrite) _).trans (Function.update_self _ _ _)
      have hread : (⟨w.install.masterKey⟩ : SecureStore).read (some payload) = w.history.toText := by
        refine SecureStore.read_payload hg (Install.nonce_length _ _) (hj.not_sealed w.history) hp ?_
        intro henc
        rcases h.mode with hm | hm
        · exact congrArg SecureStore.key hm.symm
        · rw [hm] at henc
          cases henc
      rw [stored, hpath, hmaster, hfile, hread, if_pos rfl, ← h.live]
      exact hj.ofText (h.live ▸ h.spelled.1)
  refine ⟨ha.masterKey ▸ h.key, ?_, h.live, hstored, h.spelled.1, ?_⟩
  · have hstore : w.save.2.install.store = w.install.store := ha.store
    rw [hstore]
    exact ha.masterKey ▸ h.mode
  · simp only
    split
    · exact h.spelled.1
    · exact h.spelled.2

/-- A call that changes the list, and its save. -/
theorem Agrees.edit (hj : HistoryModel.RoundTrips) (hg : Crypto.Lawful) (h : w.Agrees b)
    {e : HistoryModel.Edit} (he : ∀ r, e = .append r → r.Spelled) (hs : e.saves w.history = true) :
    (w.edit e).Agrees (b.turn ⟨[]⟩
      (.change e.apply (Archive.save { w with history := e.apply w.history }).1)) := by
  have hlive : e.apply w.history = e.apply b.live := congrArg e.apply h.live
  have hedited : ({ w with history := e.apply w.history } : Archive).Agrees
      ⟨e.apply b.live, b.kept⟩ :=
    ⟨h.key, h.mode, hlive, h.kept, h.spelled.1.apply he, h.spelled.2⟩
  unfold Archive.edit
  simp only [hs, if_true]
  exact hedited.save hj hg

section
variable [Pem]

/-- The list comes to what the event does to it. -/
theorem Agrees.step (hj : HistoryModel.RoundTrips) (hg : Crypto.Lawful) (h : w.Agrees b)
    (e : ArchiveEvent) (he : w.Recordable e) :
    (w.step e).Agrees ((w.turn? e).toList.foldl (Backed.turn ⟨[]⟩) b) := by
  cases e with
  | launch opened => exact h.launch hj opened
  | history e =>
    have hspelled : ∀ r, e = .append r → r.Spelled := by
      rintro r rfl
      exact he
    simp only [Archive.step, turn?]
    cases hrun : w.install.running with
    | false => exact h
    | true =>
      cases hs : e.saves w.history with
      | false =>
        have hsame : w.edit e = w := by
          unfold Archive.edit
          simp [hs, HistoryModel.Edit.apply_of_not_saves hs]
        simpa [hsame] using h
      | true => simpa using h.edit hj hg hspelled hs
  | edit now e =>
    simp only [Archive.step, Install.step]
    split
    · refine h.past ?_
      unfold Install.edit
      extract_lets v
      have hsaved := Install.writeFile_aside (List.mem_singleton_self v.cataloguePath)
        v.known.toText v
      have hpast : Install.Past v v.saveKnown.2 := hsaved.past (Install.historyPath_ne v).2
      split
      · exact ⟨hpast.directory, hpast.masterKey, hpast.store, hpast.file⟩
      · exact ⟨rfl, rfl, rfl, rfl⟩
    · exact h
  | setSecureTransport enabled =>
    simp only [Archive.step, Install.step]
    split
    · refine h.past ?_
      unfold Install.setSecureTransport
      split
      · exact ⟨rfl, rfl, rfl, rfl⟩
      · extract_lets v
        split
        · have hpast := (Install.ensureIdentity_aside v).past (Install.historyPath_ne v).1
          exact ⟨hpast.directory, hpast.masterKey, hpast.store, hpast.file⟩
        · exact ⟨rfl, rfl, rfl, rfl⟩
    · exact h
  | system env => exact h.past ⟨rfl, rfl, rfl, rfl⟩

theorem run_agrees (hj : HistoryModel.RoundTrips) (hg : Crypto.Lawful) :
    ∀ (events : List ArchiveEvent) {w : Archive} {b : Backed HistoryModel}, w.Agrees b →
      Lib.Allowed system Recordable w events →
        (events.foldl step w).Agrees ((turns w events).foldl (Backed.turn ⟨[]⟩) b)
  | [], _, _, h, _ => h
  | e :: events, _, _, h, hok => by
    rw [turns, List.foldl_append]
    exact run_agrees hj hg events (h.step hj hg e hok.1) hok.2

/-- With a storage that does its part, the changes are those of the calls. -/
theorem changed_turns (hj : HistoryModel.RoundTrips) (hg : Crypto.Lawful) :
    ∀ (events : List ArchiveEvent) {w : Archive} {l : HistoryModel}, w.Agrees ⟨l, l⟩ →
      Lib.Allowed system Recordable w events → (∀ t ∈ turns w events, t.Sound) →
        Backed.changed (turns w events) l = (made w events).foldl (fun h e => e.apply h) l
  | [], _, _, _, _, _ => rfl
  | e :: events, w, l, h, hok, hsound => by
    rw [turns] at hsound ⊢
    obtain ⟨hfirst, hrest⟩ := List.forall_mem_append.1 hsound
    have hnext := h.step hj hg e hok.1
    rw [Backed.run_sound _ hfirst] at hnext
    have hone : Backed.changed (w.turn? e).toList l =
        (w.call? e).toList.foldl (fun h e => e.apply h) l := by
      cases e with
      | history e =>
        simp only [turn?, call?]
        cases hrun : w.install.running with
        | false => rfl
        | true =>
          cases hs : e.saves w.history with
          | false =>
            have hsame := HistoryModel.Edit.apply_of_not_saves hs
            rw [h.live] at hsame
            exact hsame.symm
          | true => rfl
      | _ => rfl
    rw [Backed.changed_append, changed_turns hj hg events hnext hok.2 hrest, made, List.foldl_append,
      hone]

omit [Pem] in
theorem Start.agrees (hj : HistoryModel.RoundTrips) (h : w.Start) : w.Agrees ⟨⟨[]⟩, ⟨[]⟩⟩ := by
  have hblank : HistoryModel.Spelled ⟨[]⟩ := fun r hr => absurd hr List.not_mem_nil
  refine ⟨h.install.masterKey, .inr h.install.store, h.history, ?_, hblank, hblank⟩
  rw [stored, h.file]
  exact hj.ofText_nil

/-- Whatever launches there are, with or without the key, and whichever saves fail: the list that is
shown, and the one that is stored, is what the calls make of it. If every launch could read the file
and every save went through, all calls count; and what is stored stays as long as no call is. -/
theorem history_survives (hj : HistoryModel.RoundTrips) (hg : Crypto.Lawful) {w₀ : Archive}
    (h : w₀.Start) (events : List ArchiveEvent) (hok : Lib.Allowed system Recordable w₀ events) :
    (events.foldl step w₀).history =
        ((turns w₀ events).foldl (Backed.turn ⟨[]⟩) ⟨⟨[]⟩, ⟨[]⟩⟩).live ∧
      (events.foldl step w₀).stored =
        ((turns w₀ events).foldl (Backed.turn ⟨[]⟩) ⟨⟨[]⟩, ⟨[]⟩⟩).kept ∧
      ((∀ t ∈ turns w₀ events, t.Sound) →
        (events.foldl step w₀).history = (made w₀ events).foldl (fun h e => e.apply h) ⟨[]⟩) ∧
      ∀ after, Lib.Allowed system Recordable (events.foldl step w₀) after →
        (∀ t ∈ turns (events.foldl step w₀) after, t.Mute) →
          (after.foldl step (events.foldl step w₀)).stored = (events.foldl step w₀).stored := by
  have hstart := h.agrees hj
  have hrun := run_agrees hj hg events hstart hok
  refine ⟨hrun.live, hrun.kept, fun hsound => ?_, fun after hok' hmute => ?_⟩
  · rw [hrun.live, Backed.run_sound _ hsound]
    exact changed_turns hj hg events hstart hok hsound
  · rw [(run_agrees hj hg after hrun hok').kept, Backed.run_mute _ hmute, hrun.kept]

end

end

/-! ## A transfer that is still listed after a restart -/

/-- A text received from a laptop. -/
def received : HistoryModel.Record where
  id := str "1"
  direction := str "receive"
  peerAlias := str "laptop"
  peerDeviceType := str "desktop"
  timestamp := 5
  fileNames := [str "a.txt"]
  totalBytes := 5
  status := str "finished"
  destination := str "/d"

def receivedText : QByteArray := Ascii.value (.array (HistoryModel.document ⟨[received]⟩))

/-- The history with it, sealed. -/
def receivedSealing : Crypto.Sealing where
  key := List.replicate 32 7
  nonce := List.replicate 12 0
  plaintext := receivedText
  body := [58, 163, 134, 214, 158, 225, 127, 129, 143, 102, 251, 13, 171, 21, 105, 148, 159, 192,
    205, 219, 95, 254, 207, 50, 100, 112, 227, 188, 38, 134, 116, 68, 215, 235, 59, 49, 224, 151, 2,
    136, 161, 152, 212, 93, 254, 206, 36, 207, 8, 225, 197, 42, 250, 222, 14, 179, 235, 79, 169, 104,
    126, 95, 219, 39, 255, 172, 89, 6, 143, 15, 138, 88, 104, 208, 215, 249, 134, 217, 156, 84, 20,
    49, 239, 203, 1, 193, 175, 224, 107, 222, 152, 123, 151, 9, 194, 156, 184, 157, 178, 73, 168,
    248, 200, 71, 152, 93, 55, 96, 3, 49, 148, 97, 179, 192, 109, 224, 141, 73, 154, 74, 180, 150,
    75, 236, 244, 112, 65, 28, 34, 81, 129, 194, 79, 164, 16, 140, 254, 210, 157, 128, 39, 39, 136,
    106, 85, 132, 19, 119, 54, 82, 142, 241, 108, 73, 107, 57, 16, 38, 92, 199, 175, 115, 52, 170,
    207, 14, 12, 136, 229, 32, 92, 235]
  tag := [3, 167, 58, 61, 48, 70, 4, 173, 200, 13, 128, 96, 136, 163, 10, 58]

def codes (texts : List QString) : List (List Nat) := texts.map fun s => s.map (·.toNat)

def ofCodes (codes : List (List Nat)) : List QString := codes.map fun s => s.map UInt16.ofNat

theorem ofCodes_codes (texts : List QString) : ofCodes (codes texts) = texts := by
  have back : ∀ s : QString, (s.map UInt16.toNat).map UInt16.ofNat = s := by
    intro s
    rw [List.map_map]
    exact (List.map_congr_left fun c _ => UInt16.ofNat_toNat).trans (List.map_id s)
  unfold ofCodes codes
  rw [List.map_map]
  exact (List.map_congr_left fun s _ => back s).trans (List.map_id texts)

/-- What an array says of each record: its texts, its file names and its numbers. -/
def rows (values : List QJsonValue) : List (List (List Nat) × List (List Nat) × Rat × Rat) :=
  values.map fun value =>
    let text (key : String) : QString := (value.toObject.value (str key)).toString []
    (codes [text "destination", text "direction", text "id", text "peerAlias",
        text "peerDeviceType", text "status"],
      codes ((value.toObject.value (str "fileNames")).toArray.map fun name => name.toString []),
      (value.toObject.value (str "timestamp")).toDouble,
      (value.toObject.value (str "totalBytes")).toDouble)

def ofRows (rows : List (List (List Nat) × List (List Nat) × Rat × Rat)) : List QJsonValue :=
  rows.map fun r =>
    let text (n : Nat) : QJsonValue := .string ((ofCodes r.1).getD n [])
    .object [
      (str "destination", text 0),
      (str "direction", text 1),
      (str "fileNames", .array ((ofCodes r.2.1).map .string)),
      (str "id", text 2),
      (str "peerAlias", text 3),
      (str "peerDeviceType", text 4),
      (str "status", text 5),
      (str "timestamp", .double r.2.2.1),
      (str "totalBytes", .double r.2.2.2)]

theorem ofRows_rows (h : HistoryModel) : ofRows (rows h.document) = h.document := by
  unfold ofRows rows HistoryModel.document
  rw [List.map_map, List.map_map]
  refine List.map_congr_left fun r _ => congrArg QJsonValue.object ?_
  have hnames : (r.fileNames.map QJsonValue.string).map (fun name => name.toString []) =
      r.fileNames := by
    rw [List.map_map]
    exact List.map_id _
  simp only [ofCodes_codes]
  exact congrArg (fun names => [
    (str "destination", QJsonValue.string r.destination),
    (str "direction", .string r.direction),
    (str "fileNames", .array (names.map .string)),
    (str "id", .string r.id),
    (str "peerAlias", .string r.peerAlias),
    (str "peerDeviceType", .string r.peerDeviceType),
    (str "status", .string r.status),
    (str "timestamp", .double (doubleOf r.timestamp)),
    (str "totalBytes", .double (doubleOfInt r.totalBytes))]) hnames

/-- JSON as it is for the text from the laptop; any other history is spelled by its code. -/
def codedArray (values : List QJsonValue) : QByteArray :=
  if rows values = rows (HistoryModel.document ⟨[received]⟩) then receivedText
  else 91 :: 0 :: List.replicate (Encodable.encode (rows values)) 49

def ofCodedArray (text : QByteArray) : Option (List QJsonValue) :=
  if text = [] then none
  else if text = receivedText then some (HistoryModel.document ⟨[received]⟩)
  else (Encodable.decode (text.length - 2)).map ofRows

theorem ofCodedArray_codedArray (h : HistoryModel) :
    ofCodedArray (codedArray h.document) = some h.document := by
  unfold codedArray
  split
  · rename_i hr
    have hh : h.document = HistoryModel.document ⟨[received]⟩ := by
      rw [← ofRows_rows h, hr, ofRows_rows]
    have hne : receivedText ≠ [] := List.cons_ne_nil 91 _
    rw [hh, ofCodedArray, if_neg hne, if_pos rfl]
  · have hne : (91 :: 0 :: List.replicate (Encodable.encode (rows h.document)) 49 : QByteArray) ≠
        receivedText := by
      intro he
      injection he with _ he
      injection he with he _
      exact absurd he (by decide)
    unfold ofCodedArray
    rw [if_neg (List.cons_ne_nil _ _), if_neg hne]
    simp [ofRows_rows]

section

local instance receivedQt : Qt := Ascii.qt [] []

local instance codedArrays : QtArrays := ⟨ofCodedArray, codedArray⟩

local instance receivedGcm : Gcm := Crypto.listed [receivedSealing]

local instance silentPem : Pem := ⟨fun _ => [], fun _ => []⟩

theorem codedArrays_roundTrips : HistoryModel.RoundTrips where
  bracket values := by
    change ∃ rest, codedArray values = _
    unfold codedArray
    split
    · exact ⟨_, rfl⟩
    · exact ⟨_, rfl⟩
  nothing := rfl
  records h _ := ofCodedArray_codedArray h

def receivedThenReopened : List ArchiveEvent := [
  .launch true,
  .history (.append received),
  .launch true]

theorem received_survives : ∃ w : Archive, w.install.store.isEncrypting = true ∧
    w.history = ⟨[received]⟩ := by
  have hstart : Start ⟨Install.installed, ⟨[]⟩⟩ := ⟨Install.installed_start, rfl, rfl⟩
  have hok : Lib.Allowed system Recordable ⟨Install.installed, ⟨[]⟩⟩ receivedThenReopened :=
    ⟨trivial, ⟨by decide, by decide, by decide⟩, trivial, trivial⟩
  have hsound : ∀ t ∈ turns ⟨Install.installed, ⟨[]⟩⟩ receivedThenReopened, t.Sound := by
    decide +kernel
  obtain ⟨-, -, hall, -⟩ := history_survives codedArrays_roundTrips
    (Crypto.listed_lawful receivedSealing rfl) hstart receivedThenReopened hok
  refine ⟨_, by decide +kernel, (hall hsound).trans ?_⟩
  rfl

end

end Archive

end LocalSend
