import LocalSend.Store.Proof.Known

/-!
# The trust record as two sets and a name

With a store that can be read and written (`Readable`), what a record says follows from the calls
of its setters alone: `recorded` carries any such fact over restarts. The blocked keys are the ones
last blocked, and the known keys the ones last remembered (`Exact`); so a name in use is told by
the known keys, in whatever order the hash table comes (`conflicts_iff`). The name of a known key is
the one it was last remembered under (`Named`), unless a block came with another name.
-/

set_option autoImplicit false

namespace LocalSend

namespace KnownDevices

variable [Qt]

omit [Qt] in
theorem Same.symm {k k' : KnownDevices} (h : k.Same k') : k'.Same k := fun key => (h key).symm

/-- What a record says of its history, whatever it went through. -/
structure Told (ok : KnownDevices → Edit → Prop) (P : KnownDevices → List Edit → Prop) : Prop where
  nothing : P ⟨∅⟩ []
  same : ∀ {k k' edits}, k.Same k' → P k edits → P k' edits
  apply : ∀ {k e edits} (now : Nat), ok k e → P k edits → P (e.apply now k) (edits ++ [e])

/-! ## Blocks and pairings -/

/-- The flags of every key are the ones last asked for. -/
def Exact (k : KnownDevices) (edits : List Edit) : Prop := ∀ key,
  (k.on key).blocked = (Lib.last? (Edit.block? key) edits).getD false ∧
  (k.on key).paired = (Lib.last? (Edit.pair? key) edits).getD false

theorem exact_told : Told (fun _ _ => True) Exact where
  nothing := by
    intro key
    exact ⟨rfl, rfl⟩
  same := by
    intro k k' edits hs h key
    obtain ⟨hb, hp⟩ := hs.flags key
    rw [hb, hp]
    exact h key
  apply := by
    intro k e edits now _ h key
    obtain ⟨hb, hp⟩ := on_apply now k e key
    obtain ⟨hb', hp'⟩ := h key
    rw [hb, hp, hb', hp', Lib.last?_concat, Lib.last?_concat]
    refine ⟨?_, ?_⟩
    · cases e.block? key <;> simp
    · cases e.pair? key <;> simp

/-- No key is empty, so the empty one is not paired. -/
theorem Exact.nil_not_paired {k : KnownDevices} {edits : List Edit} (h : k.Exact edits)
    (hne : ∀ s, s ≠ [] → Qt.toUpper s ≠ []) : (k.on []).paired = false := by
  rw [(h []).2]
  cases hl : Lib.last? (Edit.pair? []) edits with
  | none => rfl
  | some b =>
    obtain ⟨e, -, he⟩ := Lib.exists_of_last? hl
    cases e with
    | setBlocked f a blocked => simp [Edit.pair?] at he
    | remember f a =>
      simp only [Edit.pair?] at he
      split at he
      · rename_i hf
        exact absurd hf.2 (hne f hf.1)
      · cases he
    | forget f =>
      simp only [Edit.pair?] at he
      split at he
      · cases he
        rfl
      · cases he
    | forgetAll =>
      cases he
      rfl

theorem Exact.isBlocked_iff {k : KnownDevices} {edits : List Edit} (h : k.Exact edits)
    (fingerprint : QString) : k.isBlocked fingerprint = true ↔
      fingerprint ≠ [] ∧ Lib.last? (Edit.block? (Qt.toUpper fingerprint)) edits = some true := by
  have hb := (h (Qt.toUpper fingerprint)).1
  have hon : k.entryOf fingerprint = k.on (Qt.toUpper fingerprint) := rfl
  simp [isBlocked, hon, hb, Option.getD_eq_iff]

theorem Exact.isKnown_iff {k : KnownDevices} {edits : List Edit} (h : k.Exact edits)
    (fingerprint : QString) : k.isKnown fingerprint = true ↔
      fingerprint ≠ [] ∧ Lib.last? (Edit.pair? (Qt.toUpper fingerprint)) edits = some true := by
  have hp := (h (Qt.toUpper fingerprint)).2
  have hon : k.entryOf fingerprint = k.on (Qt.toUpper fingerprint) := rfl
  simp [isKnown, hon, hp, Option.getD_eq_iff]

/-! ## A name in use -/

omit [Qt] in
theorem mem_iteration {k : KnownDevices} (order : k.Iteration) (key : QString) (e : Entry) :
    ⟨key, e⟩ ∈ order.val ↔ k.entries.lookup key = some e := by
  rw [order.property.mem_iff]
  exact (List.mem_dlookup_iff k.entries.nodupKeys).symm

omit [Qt] in
/-- A fingerprint that is expected under a name is of a pairing with that name. -/
theorem expectedFingerprint_spec {k : KnownDevices} {order : k.Iteration} {aliasName : QString}
    (h : k.expectedFingerprint order aliasName ≠ []) :
    aliasName ≠ [] ∧ ∃ e, k.entries.lookup (k.expectedFingerprint order aliasName) = some e ∧
      e.paired = true ∧ e.aliasName = aliasName := by
  unfold expectedFingerprint at h ⊢
  split at h
  · exact absurd rfl h
  · rename_i ha
    refine ⟨ha, ?_⟩
    rw [if_neg ha]
    cases hf : order.val.find? fun e => e.2.paired && e.2.aliasName = aliasName with
    | none =>
      rw [hf] at h
      exact absurd rfl h
    | some e =>
      have hmem := (mem_iteration order e.1 e.2).1 (List.mem_of_find?_eq_some hf)
      have hp := List.find?_some hf
      simp only [Bool.and_eq_true, decide_eq_true_eq] at hp
      exact ⟨e.2, hmem, hp.1, hp.2⟩

omit [Qt] in
/-- Under a name that a pairing has, one is expected. -/
theorem expectedFingerprint_ne_nil {k : KnownDevices} (hnil : (k.on []).paired = false)
    (order : k.Iteration) {key aliasName : QString} {e : Entry} (ha : aliasName ≠ [])
    (he : k.entries.lookup key = some e) (hp : e.paired = true) (hname : e.aliasName = aliasName) :
    k.expectedFingerprint order aliasName ≠ [] := by
  unfold expectedFingerprint
  rw [if_neg ha]
  cases hf : order.val.find? fun e => e.2.paired && e.2.aliasName = aliasName with
  | none =>
    have hmem := (mem_iteration order key e).2 he
    have hnot := List.find?_eq_none.1 hf _ hmem
    exact absurd (by simp [hp, hname]) hnot
  | some e' =>
    obtain ⟨key', e'⟩ := e'
    intro hkey
    simp only at hkey
    have hmem := (mem_iteration order key' e').1 (List.mem_of_find?_eq_some hf)
    have hp' := List.find?_some hf
    simp only [Bool.and_eq_true] at hp'
    rw [hkey] at hmem
    have hon : k.on [] = e' := by simp [on, hmem]
    rw [hon, hp'.1] at hnil
    cases hnil

/-- A conflict is a known name under a key that is not known. -/
theorem conflicts_iff {k : KnownDevices} (hs : k.Spelled) (hnil : (k.on []).paired = false)
    (order : k.Iteration) {fingerprint : QString} (hf : (Qt.toUpper fingerprint).WellFormed)
    (aliasName : QString) : k.conflicts order fingerprint aliasName = true ↔
      fingerprint ≠ [] ∧ aliasName ≠ [] ∧ k.isKnown fingerprint = false ∧
        ∃ other, k.isKnown other = true ∧ k.aliasFor other = aliasName := by
  unfold conflicts
  split
  · rename_i hempty
    constructor
    · intro h
      cases h
    · intro h
      rcases hempty with he | he
      · exact absurd he h.1
      · exact absurd he h.2.1
  · rename_i hfull
    obtain ⟨hfp, ha⟩ := not_or.1 hfull
    cases hk : k.isKnown fingerprint with
    | true => simp
    | false =>
      rw [if_neg Bool.false_ne_true]
      simp only [Bool.and_eq_true, decide_eq_true_eq, Bool.not_eq_true']
      constructor
      · rintro ⟨hne, -⟩
        obtain ⟨-, e, he, hp, hname⟩ := expectedFingerprint_spec hne
        have hupper := (hs _ _ he).2.2
        have hentry : k.entryOf (k.expectedFingerprint order aliasName) = e := by
          unfold entryOf
          rw [hupper, he]
          rfl
        refine ⟨hfp, ha, trivial, k.expectedFingerprint order aliasName, ?_, ?_⟩
        · simp [isKnown, hentry, hp, hne]
        · simp [aliasFor, hentry, hname]
      · rintro ⟨-, -, -, other, hother, hname⟩
        have hpaired : (k.entryOf other).paired = true := by
          unfold isKnown at hother
          simp only [Bool.and_eq_true] at hother
          exact hother.2
        unfold aliasFor at hname
        unfold entryOf at hpaired hname
        cases hl : k.entries.lookup (Qt.toUpper other) with
        | none =>
          rw [hl] at hpaired
          cases hpaired
        | some e =>
          rw [hl] at hpaired hname
          have hne := expectedFingerprint_ne_nil hnil order ha hl hpaired hname
          refine ⟨hne, ?_⟩
          obtain ⟨-, e', he', hp', -⟩ := expectedFingerprint_spec hne
          obtain ⟨hwf, -, hupper⟩ := hs _ _ he'
          -- the expected key would be the one asked about, which is not known
          cases hsame : Crypto.equalsFold (k.expectedFingerprint order aliasName) fingerprint with
          | false => rfl
          | true =>
            have hutf : QString.toUtf8 (k.expectedFingerprint order aliasName) =
                QString.toUtf8 (Qt.toUpper fingerprint) := by
              simpa [Crypto.equalsFold, Crypto.equals, hupper] using hsame
            have hkey := QString.toUtf8_inj hwf hf hutf
            rw [hkey] at he'
            simp [isKnown, entryOf, he', hp', hfp] at hk

/-! ## The name of a pairing -/

/-- What the call asks of the name of `key`: a name, or none any more. -/
def Edit.name? (key : QString) : Edit → Option (Option QString)
  | .remember fingerprint aliasName =>
    if fingerprint ≠ [] ∧ Qt.toUpper fingerprint = key then some (some aliasName) else none
  | .forget fingerprint => if Qt.toUpper fingerprint = key then some none else none
  | .forgetAll => some none
  | .setBlocked _ _ _ => none

/-- A call that blocks or unblocks a paired key comes with the name on record, or with none. -/
def Edit.KeepsName (k : KnownDevices) : Edit → Prop
  | .setBlocked fingerprint aliasName blocked => fingerprint ≠ [] →
    ∀ e, k.entries.lookup (Qt.toUpper fingerprint) = some e → e.paired = true →
      e.blocked ≠ blocked → aliasName = [] ∨ aliasName = e.aliasName
  | _ => True

/-- A pairing has the name that was last asked for. -/
def Named (k : KnownDevices) (edits : List Edit) : Prop := ∀ key, (k.on key).paired = true →
  Lib.last? (Edit.name? key) edits = some (some (k.on key).aliasName)

/-- A key that is paired after a call was given its name by it, or had it before. -/
theorem name_apply {k : KnownDevices} {e : Edit} (he : e.KeepsName k) (now : Nat) {key : QString}
    (hp : ((e.apply now k).on key).paired = true) :
    e.name? key = some (some ((e.apply now k).on key).aliasName) ∨
      e.name? key = none ∧ (k.on key).paired = true ∧
        ((e.apply now k).on key).aliasName = (k.on key).aliasName := by
  have hpair := (on_apply now k e key).2
  rw [hp] at hpair
  cases e with
  | setBlocked fingerprint aliasName blocked =>
    have hbefore : (k.on key).paired = true := hpair.symm
    refine .inr ⟨rfl, hbefore, ?_⟩
    simp only [Edit.apply, setBlocked]
    split
    · rfl
    · rename_i hf
      cases hl : k.entries.lookup (Qt.toUpper fingerprint) with
      | none =>
        cases blocked with
        | false => simp
        | true =>
          have hk : key ≠ Qt.toUpper fingerprint := by
            intro hk
            rw [hk, on, hl] at hbefore
            cases hbefore
          simp [on_insert, hk]
      | some entry =>
        simp only
        split
        · rfl
        · rename_i hb
          by_cases hk : key = Qt.toUpper fingerprint
          · have hon : k.on key = entry := by
              rw [hk, on, hl]
              rfl
            rw [hon] at hbefore ⊢
            have hname := he hf entry hl hbefore hb
            rw [on_insert, if_pos hk]
            by_cases ha : aliasName = []
            · simp [ha]
            · simp [hname.resolve_left ha]
          · rw [on_insert, if_neg hk]
  | remember fingerprint aliasName =>
    by_cases hc : fingerprint ≠ [] ∧ Qt.toUpper fingerprint = key
    · refine .inl ?_
      obtain ⟨hf, rfl⟩ := hc
      simp only [Edit.apply, Edit.name?, remember, if_neg hf]
      rw [if_pos ⟨hf, trivial⟩]
      cases hl : k.entries.lookup (Qt.toUpper fingerprint) with
      | none => simp [on_insert]
      | some entry =>
        simp only
        split
        · rename_i hsame
          simp [on, hl, hsame.2]
        · simp [on_insert]
    · simp only [Edit.pair?, if_neg hc, Option.getD_none] at hpair
      refine .inr ⟨if_neg hc, hpair.symm, ?_⟩
      simp only [Edit.apply, remember]
      split
      · rfl
      · rename_i hf
        have hk : key ≠ Qt.toUpper fingerprint := fun hk => hc ⟨hf, hk.symm⟩
        cases hl : k.entries.lookup (Qt.toUpper fingerprint) with
        | none => simp [on_insert, hk]
        | some entry =>
          simp only
          split
          · rfl
          · simp [on_insert, hk]
  | forget fingerprint =>
    by_cases hk : key = Qt.toUpper fingerprint
    · simp [Edit.pair?, hk] at hpair
    · simp only [Edit.pair?, if_neg (Ne.symm hk)] at hpair
      refine .inr ⟨?_, hpair.symm, ?_⟩
      · simp [Edit.name?, Ne.symm hk]
      · simp only [Edit.apply, forget]
        cases hl : k.entries.lookup (Qt.toUpper fingerprint) with
        | none => rfl
        | some entry =>
          simp only
          split
          · rw [on_insert, if_neg hk]
          · rw [on_erase, if_neg hk]
  | forgetAll => simp [Edit.pair?] at hpair

theorem named_told : Told (fun k e => e.KeepsName k) Named where
  nothing := by
    intro key hp
    cases hp
  same := by
    intro k k' edits hs h key hp
    have hkept := hs.on key
    have hname : (k'.on key).aliasName = (k.on key).aliasName := congrArg Prod.fst hkept
    rw [(hs.flags key).2] at hp
    rw [hname]
    exact h key hp
  apply := by
    intro k e edits now he h key hp
    rw [Lib.last?_concat]
    rcases name_apply he now hp with hname | ⟨hname, hbefore, hsame⟩
    · rw [hname]
      rfl
    · rw [hname, hsame]
      exact h key hbefore

end KnownDevices

namespace Install

open KnownDevices (Edit Told)

section
variable [Qt] [Gcm] [Pem] {w v : Install}

/-- What a run of launches with a working store promises: a launch can read the record, and what a
setter saves is stored, and can be spelled. -/
def Readable (w : Install) : StoreEvent → Prop
  | .launch opened => ∀ contents, w.files w.cataloguePath = some contents →
    w.env.readable w.cataloguePath = true ∧ (SecureStore.Sealed contents → opened = true)
  | .edit now e => w.running = true → e.saves w.known = true → e.WellFormed ∧
    ({ w with
      known := e.apply now w.known
      edits := w.edits ++ [e] } : Install).saveKnown.1 = true
  | _ => True

/-- Every call of a setter meets `ok`. -/
def Calls (ok : KnownDevices → Edit → Prop) (w : Install) (e : StoreEvent) : Prop :=
  ∀ now edit, e = .edit now edit → w.running = true → ok w.known edit

/-- The record on the disk tells `P`, and a launch that runs can read it. -/
structure Tells (P : KnownDevices → List Edit → Prop) (w : Install) : Prop extends Inv w where
  readable : w.running = true → ¬ w.Locked w.cataloguePath
  stored : P w.stored w.edits

variable {ok : KnownDevices → Edit → Prop} {P : KnownDevices → List Edit → Prop}

omit [Pem] in
theorem Tells.known (h : w.Tells P) (hP : Told ok P) (hrun : w.running = true) :
    P w.known w.edits :=
  hP.same (h.live hrun (h.readable hrun)) h.stored

omit [Pem] in
theorem Tells.aside {paths : List QString} (h : w.Tells P) (ha : Aside paths w v)
    (hp : w.cataloguePath ∉ paths) : v.Tells P := by
  obtain ⟨hs, hl⟩ := ha.stored_eq hp
  refine { h.toInv.aside ha hp with readable := ?_, stored := ?_ }
  · rw [ha.running, hl]
    exact h.readable
  · rw [hs, ha.edits]
    exact h.stored

theorem Tells.launch (hj : KnownDevices.RoundTrips) (h : w.Tells P) {opened : Bool}
    (hok : w.Readable (.launch opened)) : (w.launch opened).Tells P := by
  have hinv : (w.launch opened).Inv := by
    refine h.toInv.launch hj fun hf => ?_
    obtain ⟨contents, hcontents⟩ := Option.ne_none_iff_exists'.1 hf
    exact (hok contents hcontents).1
  obtain ⟨v, hv, ha⟩ := launch_eq w opened
  obtain ⟨hs, hl⟩ := ha.stored_eq (cataloguePath_ne w).1
  rw [hv] at hinv ⊢
  refine { hinv with readable := fun _ hlocked => ?_, stored := ?_ }
  · obtain ⟨hkey, contents, hf, hsealed⟩ := hl.1 hlocked
    have hopened := (hok contents hf).2 hsealed
    simp only [SecureStore.isEncrypting, hopened, if_true, h.masterKey] at hkey
    cases hkey
  · change P v.stored v.edits
    rw [hs, ha.edits]
    exact h.stored

omit [Pem] in
theorem edit_known (now : Nat) (e : Edit) (w : Install) :
    (w.edit now e).known = e.apply now w.known ∧ (w.edit now e).edits = w.edits ++ [e] ∧
      (w.edit now e).running = w.running := by
  unfold Install.edit
  extract_lets w'
  cases e.saves w.known with
  | false => exact ⟨rfl, rfl, rfl⟩
  | true => exact ⟨rfl, rfl, rfl⟩

omit [Pem] in
theorem Tells.edit (hj : KnownDevices.RoundTrips) (hg : Crypto.Lawful)
    (hupper : ∀ s, Qt.toUpper (Qt.toUpper s) = Qt.toUpper s) (hP : Told ok P) (h : w.Tells P)
    (hrun : w.running = true) {now : Nat} {e : Edit} (hok : w.Readable (.edit now e))
    (hcall : ok w.known e) : (w.edit now e).Tells P := by
  have hopen := h.readable hrun
  have hinv : (w.edit now e).Inv :=
    h.toInv.edit hj hg hupper hrun now e fun hsave => ⟨hopen, hok hrun hsave⟩
  obtain ⟨hknown, hedits, hrunning⟩ := edit_known now e w
  have hreadable : ¬ (w.edit now e).Locked (w.edit now e).cataloguePath := by
    unfold Install.edit
    extract_lets w'
    cases hsave : e.saves w.known with
    | false => exact hopen
    | true => exact saveKnown_open hj (hok hrun hsave).2
  refine { hinv with readable := fun _ => hreadable, stored := ?_ }
  refine hP.same (hinv.live (hrunning.trans hrun) hreadable).symm ?_
  rw [hknown, hedits]
  exact hP.apply now hcall (h.known hP hrun)

theorem Tells.step (hj : KnownDevices.RoundTrips) (hg : Crypto.Lawful)
    (hupper : ∀ s, Qt.toUpper (Qt.toUpper s) = Qt.toUpper s) (hP : Told ok P) (h : w.Tells P)
    (e : StoreEvent) (hok : w.Readable e) (hcall : w.Calls ok e) : (w.step e).Tells P := by
  cases e with
  | launch opened => exact h.launch hj hok
  | edit now edit =>
    simp only [Install.step]
    split
    · rename_i hrun
      exact h.edit hj hg hupper hP hrun hok (hcall now edit rfl hrun)
    · exact h
  | history text =>
    simp only [Install.step]
    split
    · exact h.aside (writeFile_aside (List.mem_singleton_self _) text w) (cataloguePath_ne w).2
    · exact h
  | setSecureTransport enabled =>
    simp only [Install.step]
    split
    · unfold Install.setSecureTransport
      split
      · exact h
      · extract_lets w₁
        have h₁ : w₁.Tells P := { h with }
        split
        · exact h₁.aside (ensureIdentity_aside w₁) (cataloguePath_ne w).1
        · exact h₁
    · exact h
  | system env => exact { h with }

omit [Pem] in
theorem Start.tells (hj : KnownDevices.RoundTrips) (hP : Told ok P) (h : w.Start) : w.Tells P := by
  refine { h.inv hj with readable := fun hr => ?_, stored := ?_ }
  · rw [h.running] at hr
    cases hr
  · have hs : w.stored = ⟨∅⟩ := by
      unfold stored
      rw [h.catalogue]
      unfold SecureStore.read KnownDevices.ofText
      rw [hj.nothing]
    rw [hs, h.edits]
    exact hP.nothing

/-- What a record tells of its history it tells in every launch. -/
theorem recorded (hj : KnownDevices.RoundTrips) (hg : Crypto.Lawful)
    (hupper : ∀ s, Qt.toUpper (Qt.toUpper s) = Qt.toUpper s) (hP : Told ok P)
    (h : Lib.ReachedBy system (fun w e => w.Readable e ∧ w.Calls ok e) w)
    (hrun : w.running = true) : P w.known w.edits ∧ w.known.Spelled := by
  have htells : w.Tells P := h.invariant (I := Tells P) (fun _ hs => Start.tells hj hP hs)
    fun _ e hi hok => hi.step hj hg hupper hP e hok.1 hok.2
  exact ⟨htells.known hP hrun, htells.spelled.same (htells.live hrun (htells.readable hrun))⟩

/-- The blocked keys are the ones last blocked and the known keys the ones last remembered, in
every launch; and a name is in conflict when a known key has it, and not this one. -/
theorem known_refines (hj : KnownDevices.RoundTrips) (hg : Crypto.Lawful)
    (hupper : ∀ s, Qt.toUpper (Qt.toUpper s) = Qt.toUpper s)
    (hne : ∀ s, s ≠ [] → Qt.toUpper s ≠ [])
    (h : Lib.ReachedBy system Readable w) (hrun : w.running = true) :
    (∀ fingerprint, w.known.isBlocked fingerprint = true ↔ fingerprint ≠ [] ∧
      Lib.last? (Edit.block? (Qt.toUpper fingerprint)) w.edits = some true) ∧
    (∀ fingerprint, w.known.isKnown fingerprint = true ↔ fingerprint ≠ [] ∧
      Lib.last? (Edit.pair? (Qt.toUpper fingerprint)) w.edits = some true) ∧
    ∀ (order : w.known.Iteration) (fingerprint aliasName : QString),
      (Qt.toUpper fingerprint).WellFormed →
      (w.known.conflicts order fingerprint aliasName = true ↔
        fingerprint ≠ [] ∧ aliasName ≠ [] ∧ w.known.isKnown fingerprint = false ∧
          ∃ other, w.known.isKnown other = true ∧ w.known.aliasFor other = aliasName) := by
  have hreached : Lib.ReachedBy system
      (fun w e => w.Readable e ∧ w.Calls (fun _ _ => True) e) w :=
    h.mono fun _ _ hok => ⟨hok, fun _ _ _ _ => trivial⟩
  obtain ⟨hexact, hspelled⟩ := recorded hj hg hupper KnownDevices.exact_told hreached hrun
  refine ⟨hexact.isBlocked_iff, hexact.isKnown_iff, fun order fingerprint aliasName hf => ?_⟩
  exact KnownDevices.conflicts_iff hspelled (hexact.nil_not_paired hne) order hf aliasName

/-- As long as no block of a paired key comes with another name, the key that is expected under a
name was last remembered under it. -/
theorem names_kept (hj : KnownDevices.RoundTrips) (hg : Crypto.Lawful)
    (hupper : ∀ s, Qt.toUpper (Qt.toUpper s) = Qt.toUpper s)
    (h : Lib.ReachedBy system (fun w e => w.Readable e ∧ w.Calls (fun k e => e.KeepsName k) e) w)
    (hrun : w.running = true) (order : w.known.Iteration) (aliasName : QString)
    (hexpected : w.known.expectedFingerprint order aliasName ≠ []) :
    Lib.last? (Edit.name? (w.known.expectedFingerprint order aliasName)) w.edits =
      some (some aliasName) := by
  obtain ⟨hnamed, -⟩ := recorded hj hg hupper KnownDevices.named_told h hrun
  obtain ⟨-, e, he, hp, hname⟩ := KnownDevices.expectedFingerprint_spec hexpected
  have hon : w.known.on (w.known.expectedFingerprint order aliasName) = e := by
    rw [KnownDevices.on, he]
    rfl
  have hlast := hnamed (w.known.expectedFingerprint order aliasName)
  rw [hon, hname] at hlast
  exact hlast hp

end

/-! ## A block that outlives the launch, and a name that came with a block -/

section

local instance toldQt : Qt := codedQt laptopBlocked

local instance toldGcm : Gcm := Crypto.listed [laptopSealing]

local instance toldPem : Pem := ⟨fun _ => [], fun _ => []⟩

def blockedThenRestarted : List StoreEvent := [
  .launch true,
  .edit 5 (.setBlocked (str "ab12") (str "laptop") true),
  .launch true]

theorem restarted_refines : ∃ w : Install, w.running = true ∧
    (w.known.isBlocked (str "Ab12") = true ↔ str "Ab12" ≠ [] ∧
      Lib.last? (Edit.block? (Qt.toUpper (str "Ab12"))) w.edits = some true) := by
  have hok : Lib.Allowed system Readable installed blockedThenRestarted := by
    refine ⟨?_, fun _ _ => ⟨⟨by decide, by decide⟩, by decide +kernel⟩, ?_, trivial⟩
    · intro contents hf
      cases hf
    · intro contents _
      exact ⟨rfl, fun _ => rfl⟩
  have hw : Lib.ReachedBy system Readable (blockedThenRestarted.foldl step installed) :=
    Lib.ReachedBy.run _ (.start installed_start) hok
  have hne : ∀ s : QString, s ≠ [] → Qt.toUpper s ≠ [] := by
    intro s hs hnil
    exact hs (List.map_eq_nil_iff.1 hnil)
  exact ⟨_, by decide +kernel, (known_refines (codedQt_roundTrips _)
    (Crypto.listed_lawful _ rfl) (codedQt_toUpper _) hne hw (by decide +kernel)).1 (str "Ab12")⟩

def pairedThenBlocked : List StoreEvent := [
  .launch false,
  .edit 5 (.remember (str "cd34") (str "phone")),
  .edit 6 (.setBlocked (str "cd34") (str "laptop") true)]

/-- A phone that was paired as `phone` calls itself `laptop` when it is blocked: its key now answers
for that name, and another device of that name is in conflict. -/
theorem block_renames : ∃ w : Install, Lib.ReachedBy system Readable w ∧ w.running = true ∧
    ∃ order : w.known.Iteration,
      w.known.expectedFingerprint order (str "laptop") = str "CD34" ∧
      Lib.last? (Edit.name? (str "CD34")) w.edits = some (some (str "phone")) ∧
      w.known.conflicts order (str "ef56") (str "laptop") = true := by
  have hok : Lib.Allowed system Readable installed pairedThenBlocked := by
    refine ⟨?_, fun _ _ => ⟨⟨by decide, by decide⟩, by decide +kernel⟩,
      fun _ _ => ⟨⟨by decide, by decide⟩, by decide +kernel⟩, trivial⟩
    intro contents hf
    cases hf
  have hw : Lib.ReachedBy system Readable (pairedThenBlocked.foldl step installed) :=
    Lib.ReachedBy.run _ (.start installed_start) hok
  exact ⟨_, hw, by decide +kernel, ⟨_, .refl _⟩, by decide +kernel, by decide +kernel,
    by decide +kernel⟩

end

/-! ## A name that outlives a block and a launch -/

section

/-- The record with a phone that is paired and blocked. -/
def phoneBlocked : KnownDevices :=
  ⟨(∅ : AList fun _ : QString => KnownDevices.Entry).insert (str "CD34")
    { aliasName := str "phone", firstSeen := 5, paired := true, blocked := true }⟩

local instance namedQt : Qt := codedQt phoneBlocked

local instance namedGcm : Gcm := Crypto.listed [laptopSealing]

local instance namedPem : Pem := ⟨fun _ => [], fun _ => []⟩

/-- A phone is paired, and blocked under the same name, before the app is started again. -/
def pairedPhone : List StoreEvent := [
  .launch false,
  .edit 5 (.remember (str "cd34") (str "phone")),
  .edit 6 (.setBlocked (str "cd34") (str "phone") true),
  .launch false]

theorem pairedPhone_allowed :
    Lib.Allowed system (fun w e => w.Readable e ∧ w.Calls (fun k e => e.KeepsName k) e)
      installed pairedPhone := by
  refine ⟨⟨?_, nofun⟩, ⟨fun _ _ => ⟨⟨by decide, by decide⟩, by decide +kernel⟩, ?_⟩,
    ⟨fun _ _ => ⟨⟨by decide, by decide⟩, by decide +kernel⟩, ?_⟩, ⟨?_, nofun⟩, trivial⟩
  · intro contents hf
    cases hf
  · intro now edit he _
    cases he
    trivial
  · intro now edit he _
    cases he
    intro _ e he _ _
    have hname : ((system.next (system.next installed (.launch false))
        (.edit 5 (.remember (str "cd34") (str "phone")))).known.entries.lookup
          (Qt.toUpper (str "cd34"))).map (·.aliasName) = some (str "phone") := by
      decide +kernel
    rw [he] at hname
    exact .inr (Option.some.inj hname).symm
  · intro contents hf
    have hsaved : ((pairedPhone.take 3).foldl step installed).files
        (str "/data/known-devices.json") = some (Ascii.json phoneBlocked.document) := by
      decide +kernel
    obtain rfl := Option.some.inj (hsaved.symm.trans hf)
    exact ⟨rfl, fun hs => absurd hs (by decide +kernel)⟩

theorem phone_named : ∃ w : Install, ∃ order : w.known.Iteration,
    w.known.isBlocked (str "cd34") = true ∧
    w.known.expectedFingerprint order (str "phone") = str "CD34" ∧
      Lib.last? (Edit.name? (w.known.expectedFingerprint order (str "phone"))) w.edits =
        some (some (str "phone")) := by
  have hw : Lib.ReachedBy system
      (fun w e => w.Readable e ∧ w.Calls (fun k e => e.KeepsName k) e)
      (pairedPhone.foldl step installed) :=
    Lib.ReachedBy.run _ (.start installed_start) pairedPhone_allowed
  have hread : (((pairedPhone.take 3).foldl step installed).launch false).readFile
      (str "/data/known-devices.json") = Ascii.json phoneBlocked.document := by
    decide +kernel
  have hknown : (pairedPhone.foldl step installed).known =
      .ofText (Ascii.json phoneBlocked.document) :=
    (known_launch _ false).trans (congrArg KnownDevices.ofText hread)
  have hnamed : ∀ k, k = KnownDevices.ofText (Ascii.json phoneBlocked.document) →
      k.isBlocked (str "cd34") = true ∧
        k.expectedFingerprint ⟨_, .refl _⟩ (str "phone") = str "CD34" := by
    rintro _ rfl
    exact ⟨by decide +kernel, by decide +kernel⟩
  obtain ⟨hblocked, hexpected⟩ := hnamed _ hknown
  have hrun : (pairedPhone.foldl step installed).running = true := by decide +kernel
  refine ⟨_, _, hblocked, hexpected, names_kept (codedQt_roundTrips _)
    (Crypto.listed_lawful _ rfl) (codedQt_toUpper _) hw hrun _ _ ?_⟩
  rw [hexpected]
  exact List.cons_ne_nil _ _

end

end Install

end LocalSend
