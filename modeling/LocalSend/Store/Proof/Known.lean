import LocalSend.Qt.Ascii
import LocalSend.Store.Proof.Aside
import Mathlib.Data.Rat.Encodable
import Mathlib.Logic.Equiv.List

/-!
# What is on record outlives the launch

`Install.Inv`: a launch with the key would read every block and pairing that still stands, and a
launch that could read the file holds the same in memory. A save keeps that, but for a save of a
launch that found the file locked: it started from nothing, and replaces the file.
-/

set_option autoImplicit false

namespace LocalSend

namespace KnownDevices

variable [Qt]

/-- The record holds every block and every pairing that was last asked for. -/
def Upholds (k : KnownDevices) (edits : List Edit) : Prop := ∀ key,
  (Lib.last? (Edit.block? key) edits = some true → (k.on key).blocked = true) ∧
  (Lib.last? (Edit.pair? key) edits = some true → (k.on key).paired = true)

omit [Qt] in
theorem Same.flags {k k' : KnownDevices} (h : k.Same k') (key : QString) :
    (k'.on key).blocked = (k.on key).blocked ∧ (k'.on key).paired = (k.on key).paired :=
  ⟨congrArg (fun x => x.2.2) (h.on key), congrArg (fun x => x.2.1) (h.on key)⟩

theorem Upholds.same {k k' : KnownDevices} {edits : List Edit} (h : k.Upholds edits)
    (hs : k.Same k') : k'.Upholds edits := by
  intro key
  obtain ⟨hb, hp⟩ := hs.flags key
  rw [hb, hp]
  exact h key

/-- A setter upholds what is asked of it. -/
theorem Upholds.apply {k : KnownDevices} {edits : List Edit} (h : k.Upholds edits) (now : Nat)
    (e : Edit) : (e.apply now k).Upholds (edits ++ [e]) := by
  intro key
  obtain ⟨hb, hp⟩ := on_apply now k e key
  rw [Lib.last?_concat, Lib.last?_concat, hb, hp]
  refine ⟨fun hl => ?_, fun hl => ?_⟩
  · cases he : e.block? key with
    | none =>
      rw [he] at hl
      exact (h key).1 hl
    | some b =>
      rw [he] at hl
      exact Option.some.inj hl
  · cases he : e.pair? key with
    | none =>
      rw [he] at hl
      exact (h key).2 hl
    | some b =>
      rw [he] at hl
      exact Option.some.inj hl

/-- A setter that changes nothing asks for nothing new. -/
theorem Upholds.skip {k k' : KnownDevices} {edits : List Edit} (h : k.Upholds edits) {now : Nat}
    {e : Edit} (hk : e.apply now k' = k')
    (hle : ∀ key, ((k'.on key).blocked = true → (k.on key).blocked = true) ∧
      ((k'.on key).paired = true → (k.on key).paired = true)) : k.Upholds (edits ++ [e]) := by
  intro key
  obtain ⟨hb, hp⟩ := on_apply now k' e key
  rw [hk] at hb hp
  rw [Lib.last?_concat, Lib.last?_concat]
  refine ⟨fun hl => ?_, fun hl => ?_⟩
  · cases he : e.block? key with
    | none =>
      rw [he] at hl
      exact (h key).1 hl
    | some b =>
      rw [he] at hl hb
      obtain rfl := Option.some.inj hl
      exact (hle key).1 hb
  · cases he : e.pair? key with
    | none =>
      rw [he] at hl
      exact (h key).2 hl
    | some b =>
      rw [he] at hl hp
      obtain rfl := Option.some.inj hl
      exact (hle key).2 hp

end KnownDevices

namespace Install

/-! ## The invariant -/

section
variable [Qt] [Gcm]

/-- The record as a launch with the key would read it. -/
def stored (w : Install) : KnownDevices :=
  .ofText ((⟨w.masterKey⟩ : SecureStore).read (w.files w.cataloguePath))

/-- What the files hold. -/
structure OnDisk (w : Install) : Prop where
  masterKey : w.masterKey.length = Crypto.KeyBytes
  mode : w.store = ⟨w.masterKey⟩ ∨ w.store = ⟨[]⟩
  spelled : w.stored.Spelled
  upholds : w.stored.Upholds w.edits

/-- The invariant: what is in memory is what is stored, unless the file was locked. -/
structure Inv (w : Install) : Prop extends OnDisk w where
  live : w.running = true → ¬ w.Locked w.cataloguePath → w.stored.Same w.known
  locked : w.running = true → w.Locked w.cataloguePath → w.known = ⟨∅⟩

variable {w v : Install}

theorem Aside.stored_eq {paths : List QString} (h : Aside paths w v)
    (hp : w.cataloguePath ∉ paths) :
    v.stored = w.stored ∧ (v.Locked v.cataloguePath ↔ w.Locked w.cataloguePath) := by
  have hpath : v.cataloguePath = w.cataloguePath := by
    unfold cataloguePath
    rw [h.directory]
  unfold stored Locked
  rw [hpath, h.files _ hp, h.masterKey, h.store]
  exact ⟨rfl, .rfl⟩

theorem OnDisk.aside {paths : List QString} (h : w.OnDisk) (ha : Aside paths w v)
    (hp : w.cataloguePath ∉ paths) : v.OnDisk := by
  obtain ⟨hs, -⟩ := ha.stored_eq hp
  refine ⟨?_, ?_, ?_, ?_⟩
  · rw [ha.masterKey]
    exact h.masterKey
  · rw [ha.masterKey, ha.store]
    exact h.mode
  · rw [hs]
    exact h.spelled
  · rw [hs, ha.edits]
    exact h.upholds

theorem Inv.aside {paths : List QString} (h : w.Inv) (ha : Aside paths w v)
    (hp : w.cataloguePath ∉ paths) : v.Inv := by
  obtain ⟨hs, hl⟩ := ha.stored_eq hp
  refine { h.toOnDisk.aside ha hp with live := ?_, locked := ?_ }
  · rw [ha.running, hl, hs, ha.known]
    exact h.live
  · rw [ha.running, hl, ha.known]
    exact h.locked

theorem Start.inv (hj : KnownDevices.RoundTrips) (h : w.Start) : w.Inv := by
  have hs : w.stored = ⟨∅⟩ := by
    unfold stored
    rw [h.catalogue]
    unfold SecureStore.read KnownDevices.ofText
    rw [hj.nothing]
  have idle : ¬ w.running = true := by
    rw [h.running]
    decide
  refine ⟨⟨h.masterKey, .inr h.store, ?_, ?_⟩, fun hr => absurd hr idle, fun hr => absurd hr idle⟩
  · rw [hs]
    intro key e he
    cases he
  · rw [hs, h.edits]
    intro key
    exact ⟨fun hl => by simp at hl, fun hl => by simp at hl⟩

/-- A file that is open to this launch reads as it would with the key. -/
theorem OnDisk.read (h : w.OnDisk) (hl : ¬ w.Locked w.cataloguePath) :
    w.store.read (w.files w.cataloguePath) =
      (⟨w.masterKey⟩ : SecureStore).read (w.files w.cataloguePath) := by
  rcases h.mode with hm | hm
  · rw [hm]
  · unfold SecureStore.read
    cases hf : w.files w.cataloguePath with
    | none => rfl
    | some contents =>
      have hs : ¬ SecureStore.Sealed contents :=
        fun hs => hl ⟨by rw [hm]; rfl, contents, hf, hs⟩
      simp [hs]

/-- Reading the record. -/
theorem OnDisk.load (hj : KnownDevices.RoundTrips) (h : w.OnDisk)
    (hr : w.files w.cataloguePath ≠ none → w.env.readable w.cataloguePath = true) :
    w.loadKnown.Inv := by
  have hread : w.readFile w.cataloguePath = w.store.read (w.files w.cataloguePath) := by
    unfold readFile
    by_cases hf : w.files w.cataloguePath = none
    · simp [hf]
    · rw [hr hf, if_pos rfl]
  refine ⟨⟨h.masterKey, h.mode, h.spelled, h.upholds⟩, fun _ hl => ?_, fun _ hl => ?_⟩
  · have hs : w.stored = w.loadKnown.known := by
      unfold stored loadKnown
      rw [hread, h.read hl]
    intro key
    rw [← hs]
    rfl
  · obtain ⟨hkey, contents, hf, hsealed⟩ := hl
    have hempty : w.store.read (w.files w.cataloguePath) = [] := by
      rw [show w.files w.cataloguePath = some contents from hf]
      simp [SecureStore.read, hsealed, show w.store.isEncrypting = false from hkey]
    change KnownDevices.ofText (w.readFile w.cataloguePath) = _
    rw [hread, hempty, KnownDevices.ofText, hj.nothing]

/-- A launch opens the store, sees to the identity and reads the record. -/
theorem launch_eq [Pem] (w : Install) (opened : Bool) : ∃ v, w.launch opened = v.loadKnown ∧
    Aside w.identityPaths { w with
      running := true
      store := ⟨if opened then w.masterKey else []⟩
      identity := noIdentity } v := by
  unfold Install.launch
  extract_lets w₁ w₂
  have ha : Aside w.identityPaths w₁ w₂ := by
    simp only [w₂]
    split
    · exact ensureIdentity_aside w₁
    · exact .refl _ w₁
  exact ⟨w₂, rfl, ha⟩

/-- What a launch has on record is what it reads. -/
theorem known_launch [Pem] (w : Install) (opened : Bool) : (w.launch opened).known =
    .ofText ((w.launch opened).readFile (w.launch opened).cataloguePath) := by
  obtain ⟨v, hv, -⟩ := launch_eq w opened
  rw [hv]
  rfl

theorem Inv.launch [Pem] (hj : KnownDevices.RoundTrips) (h : w.Inv) {opened : Bool}
    (hr : w.files w.cataloguePath ≠ none → w.env.readable w.cataloguePath = true) :
    (w.launch opened).Inv := by
  obtain ⟨v, hv, ha⟩ := launch_eq w opened
  rw [hv]
  have hpath : v.cataloguePath = w.cataloguePath := by
    unfold cataloguePath
    rw [ha.directory]
  refine (OnDisk.aside ?_ ha (cataloguePath_ne w).1).load hj ?_
  · refine ⟨h.masterKey, ?_, h.spelled, h.upholds⟩
    cases opened with
    | true => exact .inl rfl
    | false => exact .inr rfl
  · rw [hpath, ha.env, ha.files _ (cataloguePath_ne w).1]
    exact hr

omit [Gcm] in
/-- The text of a record does not pass for an encrypted file. -/
theorem toText_not_sealed (hj : KnownDevices.RoundTrips) (k : KnownDevices) :
    ¬ SecureStore.Sealed k.toText := by
  obtain ⟨rest, hrest⟩ := hj.brace k.document
  rw [KnownDevices.toText, hrest]
  simp [SecureStore.Sealed, SecureStore.Magic, ascii]

/-- A launch can read what it saved. -/
theorem saveKnown_open (hj : KnownDevices.RoundTrips) (hok : w.saveKnown.1 = true) :
    ¬ w.saveKnown.2.Locked w.saveKnown.2.cataloguePath := by
  intro hl
  obtain ⟨hkey, contents, hf, hsealed⟩ := hl
  obtain ⟨payload, hp, hwrite⟩ := SecureStore.write_of_ok hok
  have hfile : w.saveKnown.2.files w.saveKnown.2.cataloguePath = some payload :=
    (congrFun (congrArg Prod.snd hwrite) _).trans (Function.update_self _ _ _)
  obtain rfl := Option.some.inj (hfile.symm.trans hf)
  unfold SecureStore.payload at hp
  rw [if_neg (by rw [show w.store.isEncrypting = false from hkey]; decide)] at hp
  obtain rfl := Option.some.inj hp
  exact toText_not_sealed hj w.known hsealed

/-- A setter and its save. -/
theorem Inv.edit (hj : KnownDevices.RoundTrips) (hg : Crypto.Lawful)
    (hupper : ∀ s, Qt.toUpper (Qt.toUpper s) = Qt.toUpper s) (h : w.Inv) (hrun : w.running = true)
    (now : Nat) (e : KnownDevices.Edit) (hs : e.saves w.known = true →
      ¬ w.Locked w.cataloguePath ∧ e.WellFormed ∧
        ({ w with
          known := e.apply now w.known
          edits := w.edits ++ [e] } : Install).saveKnown.1 = true) :
    (w.edit now e).Inv := by
  unfold Install.edit
  extract_lets w'
  cases hsave : e.saves w.known with
  | false =>
    have hsame : e.apply now w.known = w.known := KnownDevices.apply_of_not_saves hsave
    have hknown : w'.known = w.known := hsame
    rw [if_neg Bool.false_ne_true]
    refine ⟨⟨h.masterKey, h.mode, h.spelled, ?_⟩, fun _ hl => ?_, fun _ hl => ?_⟩
    · refine h.upholds.skip hsame fun key => ?_
      by_cases hl : w.Locked w.cataloguePath
      · rw [h.locked hrun hl]
        exact ⟨fun hb => absurd hb Bool.false_ne_true, fun hp => absurd hp Bool.false_ne_true⟩
      · obtain ⟨hb, hp⟩ := (h.live hrun hl).flags key
        rw [hb, hp]
        exact ⟨id, id⟩
    · rw [hknown]
      exact h.live hrun hl
    · rw [hknown]
      exact h.locked hrun hl
  | true =>
    obtain ⟨hopen, hwf, hok⟩ := hs hsave
    rw [if_pos rfl]
    have hlive := h.live hrun hopen
    have hspelled : w'.known.Spelled := (h.spelled.same hlive).apply now hwf hupper
    have hupholds : w'.known.Upholds w'.edits := (h.upholds.same hlive).apply now e
    obtain ⟨payload, hp, hwrite⟩ := SecureStore.write_of_ok hok
    have hfiles : w'.saveKnown.2.files =
        Function.update w'.files w'.cataloguePath (some payload) := congrArg Prod.snd hwrite
    have hfile : w'.saveKnown.2.files w'.saveKnown.2.cataloguePath = some payload := by
      rw [hfiles]
      exact Function.update_self _ _ _
    have hstored : w'.saveKnown.2.stored = .ofText w'.known.toText := by
      unfold stored
      rw [hfile]
      refine congrArg _ (SecureStore.read_payload hg (nonce_length _ _)
        (toText_not_sealed hj w'.known) hp ?_)
      intro henc
      rcases h.mode with hm | hm
      · exact congrArg SecureStore.key hm.symm
      · rw [show w'.store = ⟨[]⟩ from hm] at henc
        cases henc
    have hsame : w'.known.Same w'.saveKnown.2.stored := by
      rw [hstored]
      exact hj.same hspelled
    exact ⟨⟨h.masterKey, h.mode, hspelled.same hsame, hupholds.same hsame⟩,
      fun _ _ key => (hsame key).symm, fun _ hl => absurd hl (saveKnown_open hj hok)⟩

/-- What a run of launches promises: no save of a launch that found the file locked. The rest is
the system's part: the file can be read and written, and what is put into it can be spelled. -/
def Recorded [Pem] (w : Install) : StoreEvent → Prop
  | .launch _ => w.files w.cataloguePath ≠ none → w.env.readable w.cataloguePath = true
  | .edit now e => w.running = true → e.saves w.known = true →
    ¬ w.Locked w.cataloguePath ∧ e.WellFormed ∧
      ({ w with
        known := e.apply now w.known
        edits := w.edits ++ [e] } : Install).saveKnown.1 = true
  | _ => True

theorem Inv.step [Pem] (hj : KnownDevices.RoundTrips) (hg : Crypto.Lawful)
    (hupper : ∀ s, Qt.toUpper (Qt.toUpper s) = Qt.toUpper s) (h : w.Inv) (e : StoreEvent)
    (hok : w.Recorded e) : (w.step e).Inv := by
  cases e with
  | launch opened => exact h.launch hj hok
  | edit now e =>
    simp only [Install.step]
    split
    · rename_i hrun
      exact h.edit hj hg hupper hrun now e (hok hrun)
    · exact h
  | history text =>
    simp only [Install.step]
    split
    · exact h.aside (writeFile_aside (List.mem_singleton_self _) text w) (cataloguePath_ne w).2
    · exact h
  | setSecureTransport enabled =>
    simp only [Install.step]
    split
    · unfold Install.setSecureTransport
      split
      · exact h
      · extract_lets w₁
        have h₁ : w₁.Inv := ⟨⟨h.masterKey, h.mode, h.spelled, h.upholds⟩, h.live, h.locked⟩
        split
        · exact h₁.aside (ensureIdentity_aside w₁) (cataloguePath_ne w).1
        · exact h₁
    · exact h
  | system env => exact ⟨⟨h.masterKey, h.mode, h.spelled, h.upholds⟩, h.live, h.locked⟩

/-- In every launch with the key, what was blocked and not unblocked since is blocked, and what was
remembered and not forgotten since is known. -/
theorem records_kept [Pem] (hj : KnownDevices.RoundTrips) (hg : Crypto.Lawful)
    (hupper : ∀ s, Qt.toUpper (Qt.toUpper s) = Qt.toUpper s)
    (h : Lib.ReachedBy system Recorded w) (hrun : w.running = true)
    (hkey : w.store.isEncrypting = true) (fingerprint : QString) (hf : fingerprint ≠ []) :
    (Lib.last? (KnownDevices.Edit.block? (Qt.toUpper fingerprint)) w.edits = some true →
      w.known.isBlocked fingerprint = true) ∧
    (Lib.last? (KnownDevices.Edit.pair? (Qt.toUpper fingerprint)) w.edits = some true →
      w.known.isKnown fingerprint = true) := by
  have hinv : w.Inv := h.invariant (I := Inv) (fun _ hs => Start.inv hj hs)
    fun _ e hi hok => hi.step hj hg hupper e hok
  have hopen : ¬ w.Locked w.cataloguePath := fun hl => Bool.false_ne_true (hl.1.symm.trans hkey)
  have hon : w.known.entryOf fingerprint = w.known.on (Qt.toUpper fingerprint) := rfl
  obtain ⟨hb, hp⟩ := (hinv.upholds.same (hinv.live hrun hopen)) (Qt.toUpper fingerprint)
  refine ⟨fun hl => ?_, fun hl => ?_⟩
  · simpa [KnownDevices.isBlocked, hf, hon] using hb hl
  · simpa [KnownDevices.isKnown, hf, hon] using hp hl

end

/-! ## A record saved by a launch that could not read it -/

/-- The record with a blocked laptop in it. -/
def laptopBlocked : KnownDevices :=
  ⟨(∅ : AList fun _ : QString => KnownDevices.Entry).insert (str "AB12")
    { aliasName := str "laptop", firstSeen := 5, blocked := true }⟩

def phonePaired : KnownDevices :=
  ⟨(∅ : AList fun _ : QString => KnownDevices.Entry).insert (str "CD34")
    { aliasName := str "phone", firstSeen := 6, paired := true }⟩

/-- The record with the laptop, sealed. -/
def laptopSealing : Crypto.Sealing where
  key := List.replicate 32 7
  nonce := List.replicate 12 0
  plaintext := Ascii.json laptopBlocked.document
  body := [26, 250, 229, 240, 202, 160, 41, 210, 154, 37, 238, 8, 173, 26, 56, 140, 135, 205, 197,
    152, 3, 168, 196, 43, 52, 57, 162, 170, 35, 134, 121, 13, 136, 173, 107, 110, 247, 128, 30, 155,
    232, 152, 158, 22, 234, 212, 60, 249, 35, 229, 198, 109, 179, 201, 24, 202, 185, 79, 238, 110,
    99, 79, 219, 64, 181, 239, 92, 17, 200, 72, 213]
  tag := [106, 98, 60, 223, 183, 77, 213, 252, 105, 86, 42, 83, 22, 125, 246, 179]

section

local instance laptopGcm : Gcm := Crypto.listed [laptopSealing]

local instance noPem : Pem := ⟨fun _ => [], fun _ => []⟩

local instance recordsQt : Qt := Ascii.qt [
  (Ascii.json laptopBlocked.document, laptopBlocked.document),
  (Ascii.json phonePaired.document, phonePaired.document)] []

def blockedThenPaired : List StoreEvent := [
  .launch true,
  .edit 5 (.setBlocked (str "ab12") (str "laptop") true),
  .launch false,
  .edit 6 (.remember (str "cd34") (str "phone")),
  .launch true]

/-- A pairing recorded by a launch without the key wipes out the block. -/
theorem block_lost : ∃ w : Install, Lib.Reached system w ∧ w.running = true ∧
    w.store.isEncrypting = true ∧
    Lib.last? (KnownDevices.Edit.block? (Qt.toUpper (str "ab12"))) w.edits = some true ∧
    w.known.isBlocked (str "ab12") = false :=
  ⟨blockedThenPaired.foldl step installed,
    Lib.ReachedBy.run_any _ (.start installed_start), by decide +kernel⟩

end

/-! ## A block that outlives a launch without the key -/

/-- What a document says of each key. -/
def rows (o : QJsonObject) : List (List Nat × List Nat × Bool × Rat × Bool) :=
  o.map fun f =>
    let value := f.2.toObject
    (f.1.map UInt16.toNat, ((value.value (str "alias")).toString []).map UInt16.toNat,
      (value.value (str "blocked")).toBool false, (value.value (str "firstSeen")).toDouble,
      (value.value (str "paired")).toBool false)

def ofRows (rows : List (List Nat × List Nat × Bool × Rat × Bool)) : QJsonObject :=
  rows.map fun r => (r.1.map UInt16.ofNat, .object [
    (str "alias", .string (r.2.1.map UInt16.ofNat)),
    (str "blocked", .bool r.2.2.1),
    (str "firstSeen", .double r.2.2.2.1),
    (str "paired", .bool r.2.2.2.2)])

theorem ofRows_rows (k : KnownDevices) : ofRows (rows k.document) = k.document := by
  have back : ∀ s : QString, (s.map UInt16.toNat).map UInt16.ofNat = s := by
    intro s
    rw [List.map_map]
    refine (List.map_congr_left fun c _ => ?_).trans (List.map_id s)
    exact UInt16.ofNat_toNat
  unfold ofRows rows KnownDevices.document
  rw [List.map_map, List.map_map]
  refine List.map_congr_left fun e _ => Prod.ext (back _) ?_
  exact congrArg (fun s => QJsonValue.object [
    (str "alias", .string s),
    (str "blocked", .bool e.2.blocked),
    (str "firstSeen", .double (doubleOf e.2.firstSeen)),
    (str "paired", .bool e.2.paired)]) (back e.2.aliasName)

/-- JSON as it is for the record `plain`; any other record is spelled by its code. -/
def codedText (plain : KnownDevices) (o : QJsonObject) : QByteArray :=
  if rows o = rows plain.document then Ascii.json plain.document
  else 123 :: 0 :: List.replicate (Encodable.encode (rows o)) 49

def ofCodedText (plain : KnownDevices) (text : QByteArray) : Option QJsonObject :=
  if text = [] then none
  else if text = Ascii.json plain.document then some plain.document
  else (Encodable.decode (text.length - 2)).map ofRows

/-- JSON goes on with a key or ends after its brace. -/
theorem coded_ne_json (o : QJsonObject) (rest : QByteArray) :
    123 :: 0 :: rest ≠ Ascii.json o := by
  intro he
  match o with
  | [] | [_] | _ :: _ :: _ =>
    injection he with _ he
    injection he with he _
    exact absurd he (by decide)

theorem codedText_brace (plain : KnownDevices) (o : QJsonObject) :
    ∃ rest, codedText plain o = 123 :: rest := by
  unfold codedText
  split
  · exact ⟨_, rfl⟩
  · exact ⟨_, rfl⟩

theorem ofCodedText_codedText (plain k : KnownDevices) :
    ofCodedText plain (codedText plain k.document) = some k.document := by
  unfold codedText
  split
  · rename_i hr
    have hk : k.document = plain.document := by
      rw [← ofRows_rows k, hr, ofRows_rows]
    rw [hk]
    unfold ofCodedText
    rw [if_neg (by exact List.cons_ne_nil _ _), if_pos rfl]
  · unfold ofCodedText
    rw [if_neg (List.cons_ne_nil _ _), if_neg (coded_ne_json _ _)]
    simp [ofRows_rows]

@[reducible] def codedQt (plain : KnownDevices) : Qt :=
  { Ascii.qt [] [] with
    toJson := codedText plain
    fromJson := ofCodedText plain }

theorem codedQt_roundTrips (plain : KnownDevices) :
    @KnownDevices.RoundTrips (codedQt plain) :=
  letI := codedQt plain
  { brace := codedText_brace plain
    nothing := rfl
    fields k _ := ⟨k.document, ofCodedText_codedText plain k, fun _ => rfl⟩ }

theorem codedQt_toUpper (plain : KnownDevices) (s : QString) :
    (codedQt plain).toUpper ((codedQt plain).toUpper s) = (codedQt plain).toUpper s := by
  change (s.map Ascii.upper).map Ascii.upper = s.map Ascii.upper
  rw [List.map_map]
  refine List.map_congr_left fun c _ => ?_
  unfold Ascii.upper Function.comp
  split <;> grind

section

local instance keptQt : Qt := codedQt laptopBlocked

local instance sealedGcm : Gcm := Crypto.listed [laptopSealing]

local instance plainPem : Pem := ⟨fun _ => [], fun _ => []⟩

def blockedThenReopened : List StoreEvent := [
  .launch true,
  .edit 5 (.setBlocked (str "ab12") (str "laptop") true),
  .launch false,
  .launch true]

theorem block_kept : ∃ w : Install, w.store.isEncrypting = true ∧
    w.known.isBlocked (str "ab12") = true := by
  have hok : Lib.Allowed system Recorded installed blockedThenReopened := by
    refine ⟨fun hf => absurd rfl hf, fun _ _ => ⟨?_, ?_, ?_⟩, fun _ => rfl, fun _ => rfl, trivial⟩
    · intro hl
      exact absurd hl.1 (by decide)
    · exact ⟨by decide, by decide⟩
    · decide +kernel
  have hw := Lib.ReachedBy.run _ (.start installed_start) hok
  exact ⟨_, by decide +kernel, (records_kept (codedQt_roundTrips _) (Crypto.listed_lawful _ rfl)
    (codedQt_toUpper _) hw (by decide +kernel) (by decide +kernel) (str "ab12") (by decide)).1
    (by decide +kernel)⟩

end

end Install

end LocalSend
