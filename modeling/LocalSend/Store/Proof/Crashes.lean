import LocalSend.Lib.Crash
import LocalSend.Store.Proof.Identity

/-!
# An app that is killed

`identityOps` are the operations on the disk of `ensure`, in their order: `ensureIdentity` is all of
them (`performs_identityOps`), and a launch that is killed is the first few. The certificate is the
first of the pair to go and the last to come. So it is never there without the key it was generated
with (`Paired`), wherever any launch is killed, as long as the system carries its removal out:
`ensure` does not ask whether it did (`refused_removal_mixed`).
-/

set_option autoImplicit false

namespace LocalSend

/-- An atomic operation on the disk. -/
inductive FileOp
  | remove (path : QString)
  | write (path : QString) (data : QByteArray)

namespace Install

variable [Gcm]

/-- Nobody asks whether a file could be removed. -/
def perform : FileOp → Install → Bool × Install
  | .remove path, w => (true, w.removeFile path)
  | .write path data, w => w.writeFile path data

variable {w v : Install} {paths : List QString} {pems pems' : List PemPair}

/-- The certificate is not there without the key that one of the calls generated with it. -/
def Paired (pems : List PemPair) (w : Install) : Prop :=
  w.files w.certPath ≠ none →
    ∃ pem ∈ pems, w.onFile w.certPath = pem.certificate ∧ w.onFile w.keyPath = pem.key

/-- The identity files are as they were. -/
structure Kept (w v : Install) : Prop where
  directory : v.directory = w.directory
  masterKey : v.masterKey = w.masterKey
  files : ∀ path ∈ w.identityPaths, v.files path = w.files path

theorem Paired.mono (h : w.Paired pems) (hle : pems ⊆ pems') : w.Paired pems' := by
  intro hcert
  obtain ⟨pem, hpem, hpair⟩ := h hcert
  exact ⟨pem, hle hpem, hpair⟩

theorem Kept.paired (hk : Kept w v) (h : w.Paired pems) : v.Paired pems := by
  have hcert : v.certPath = w.certPath := by rw [certPath, certPath, hk.directory]
  have hkey : v.keyPath = w.keyPath := by rw [keyPath, keyPath, hk.directory]
  unfold Paired onFile
  rw [hcert, hkey, hk.masterKey, hk.files _ (by simp [identityPaths]),
    hk.files _ (by simp [identityPaths])]
  exact h

omit [Gcm] in
theorem Aside.kept (h : Aside paths w v) (hp : ∀ path ∈ w.identityPaths, path ∉ paths) :
    Kept w v := ⟨h.directory, h.masterKey, fun path hpath => h.files path (hp path hpath)⟩

/-- A pair of which a file is missing has no certificate. -/
theorem Paired.cert_none (h : w.Paired pems)
    (hmissing : w.files w.certPath = none ∨ w.files w.keyPath = none) :
    w.files w.certPath = none := by
  by_contra hcert
  obtain ⟨pem, -, -, hkey⟩ := h hcert
  have hnone := hmissing.resolve_left hcert
  rw [onFile, hnone] at hkey
  exact ne_of_pem pem.begins.2 hkey.symm

/-! ## The operations of `ensure` -/

section
variable [Pem]

/-- The pair that `generate` would come up with. -/
def newPair (w : Install) : Option PemPair :=
  match w.env.generated with
  | .error _ => none
  | .ok pem => if Pem.certificate pem.certificate = [] ∨ Pem.key pem.key = [] then none else some pem

def generateOps (w : Install) : List FileOp :=
  match w.newPair with
  | none => []
  | some pem => [.write w.keyPath pem.key, .write w.certPath pem.certificate]

def identityOps (w : Install) : List FileOp :=
  if ¬ w.env.mkpath then []
  else if w.files w.certPath = none ∨ w.files w.keyPath = none then w.generateOps
  else match w.loadIdentity with
    | .ok _ => []
    | .error _ => .remove w.certPath :: .remove w.keyPath :: w.generateOps

/-- The pair that `ensure` generates, if it calls `generate`. -/
def generates (w : Install) : Option PemPair :=
  if ¬ w.env.mkpath then none
  else if w.files w.certPath = none ∨ w.files w.keyPath = none then w.newPair
  else match w.loadIdentity with
    | .ok _ => none
    | .error _ => w.newPair

omit [Gcm] in
theorem Aside.newPair (h : Aside paths w v) : v.newPair = w.newPair := by
  unfold Install.newPair
  rw [h.env]

omit [Gcm] in
theorem Aside.generateOps (h : Aside paths w v) : v.generateOps = w.generateOps := by
  unfold Install.generateOps
  rw [h.newPair, h.certPath_eq.1, h.certPath_eq.2]

theorem performs_generateOps (w : Install) :
    (Lib.performs perform w.generateOps w).2 = w.generateIdentity.2 := by
  unfold generateOps newPair generateIdentity
  cases w.env.generated with
  | error reason => rfl
  | ok pem =>
    by_cases huse : Pem.certificate pem.certificate = [] ∨ Pem.key pem.key = []
    · simp only [if_pos huse]
      rfl
    · have hkey := writeFile_aside (List.mem_singleton_self w.keyPath) pem.key w
      simp only [if_neg huse, Lib.performs, perform]
      rcases hw : w.writeFile w.keyPath pem.key with ⟨ok, v⟩
      rw [hw] at hkey
      cases ok with
      | false => rfl
      | true =>
        simp only [hkey.certPath_eq.1]
        rcases v.writeFile w.certPath pem.certificate with ⟨ok, u⟩
        cases ok <;> rfl

/-- All of the operations are what `ensure` does to the disk. -/
theorem performs_identityOps (w : Install) :
    (Lib.performs perform w.identityOps w).2 = w.issueIdentity.2 := by
  unfold identityOps issueIdentity
  split
  · rfl
  · split
    · exact performs_generateOps w
    · cases w.loadIdentity with
      | ok pair => rfl
      | error reason =>
        have h₁ := removeFile_aside (List.mem_singleton_self w.certPath) w
        have h₂ := removeFile_aside (List.mem_singleton_self w.keyPath) (w.removeFile w.certPath)
        simp only [Lib.performs, perform]
        rw [← h₁.generateOps, ← h₂.generateOps]
        exact performs_generateOps _

/-! ## Wherever it is killed -/

/-- While a pair is written there is no certificate, and then there is the one of the pair. -/
theorem generateOps_survives (hg : Crypto.Lawful) (hk : w.Keyed) (hcert : w.files w.certPath = none)
    (pems : List PemPair) : Lib.Survives perform
      (fun v => Aside w.identityPaths w v ∧ v.Paired (pems ++ w.newPair.toList)) w.generateOps w := by
  have missing : ∀ {v : Install} {pems : List PemPair}, v.files v.certPath = none → v.Paired pems :=
    fun hnone hsome => absurd hnone hsome
  have hstart : Aside w.identityPaths w w ∧ w.Paired (pems ++ w.newPair.toList) :=
    ⟨.refl _ w, missing hcert⟩
  unfold generateOps
  cases hpem : w.newPair with
  | none =>
    rw [hpem] at hstart
    exact .nil hstart
  | some pem =>
    rw [hpem] at hstart
    set v := (w.writeFile w.keyPath pem.key).2
    have hv : Aside [w.keyPath] w v := writeFile_aside (List.mem_singleton_self _) _ w
    have hv' : Aside w.identityPaths w v := writeFile_aside (by simp [identityPaths]) _ w
    have hcert' : v.files v.certPath = none := by
      rw [hv.certPath_eq.1, hv.files _ (by simp [(keyPath_ne w).symm])]
      exact hcert
    refine .cons hstart (fun _ => ⟨hv', missing hcert'⟩) fun hkey => ?_
    set u := (v.writeFile w.certPath pem.certificate).2
    have hu : Aside [w.certPath] v u := writeFile_aside (List.mem_singleton_self _) _ v
    have hu' : Aside w.identityPaths w u :=
      hv'.trans (writeFile_aside (by simp [identityPaths]) _ v)
    refine .cons ⟨hv', missing hcert'⟩ (fun hfails => ?_) fun hgoes => .nil ?_
    · refine ⟨hu', missing ?_⟩
      show u.files u.certPath = none
      rw [hu.certPath_eq.1]
      exact (congrFun (writeFile_failed hfails) _).trans hcert'
    · refine ⟨hu', fun _ => ⟨pem, by simp, ?_, ?_⟩⟩
      · show u.onFile u.certPath = _
        rw [hu'.certPath_eq.1]
        exact (hk.aside hv).writeFile_onFile hg (not_sealed_of_pem pem.begins.1) hgoes
      · show u.onFile u.keyPath = _
        rw [hu'.certPath_eq.2, onFile_aside hu (by simp [keyPath_ne w])]
        exact hk.writeFile_onFile hg (not_sealed_of_pem pem.begins.2) hkey

/-- Wherever `ensure` is killed, there is no certificate without its key. -/
theorem identityOps_survives (hg : Crypto.Lawful) (hk : w.Keyed) (h : w.Paired pems)
    (hremoves : w.env.removes w.certPath = true) : Lib.Survives perform
      (fun v => Aside w.identityPaths w v ∧ v.Paired (pems ++ w.generates.toList)) w.identityOps w := by
  have hstart : ∀ {pems' : List PemPair}, Aside w.identityPaths w w ∧ w.Paired (pems ++ pems') :=
    ⟨.refl _ w, h.mono (List.subset_append_left _ _)⟩
  unfold identityOps generates
  by_cases hdir : w.env.mkpath = true
  · simp only [hdir, not_true_eq_false, if_false]
    by_cases hmissing : w.files w.certPath = none ∨ w.files w.keyPath = none
    · simp only [hmissing, if_true]
      exact generateOps_survives hg hk (h.cert_none hmissing) pems
    · simp only [hmissing, if_false]
      cases hload : w.loadIdentity with
      | ok pair => exact .nil hstart
      | error reason =>
        set u := w.removeFile w.certPath with hu
        set v := u.removeFile w.keyPath
        have h₁ : Aside w.identityPaths w u := removeFile_aside (by simp [identityPaths]) w
        have h₂ : Aside [w.keyPath] u v := removeFile_aside (List.mem_singleton_self _) u
        have h₃ : Aside w.identityPaths w v :=
          h₁.trans (removeFile_aside (by simp [identityPaths]) u)
        have hgone : u.files u.certPath = none := by
          rw [h₁.certPath_eq.1]
          simp [hu, removeFile, hremoves]
        have hgone' : v.files v.certPath = none := by
          rw [h₂.certPath_eq.1, h₂.files _ ?_]
          · exact hgone
          · rw [h₁.certPath_eq.1, List.mem_singleton]
            exact (keyPath_ne w).symm
        have hdone : ∀ {I : Prop}, true = false → I := fun hno => Bool.noConfusion hno
        refine .cons hstart hdone fun _ => .cons ⟨h₁, fun hcert => absurd hgone hcert⟩ hdone fun _ => ?_
        have hrest := generateOps_survives hg (hk.aside h₃) hgone' pems
        rw [h₃.generateOps, h₃.newPair, h₃.paths] at hrest
        exact hrest.mono fun x hx => ⟨h₃.trans hx.1, hx.2⟩
  · simp only [hdir]
    exact .nil hstart

end

section
variable [Pem]

/-- What is loaded is what is on file. -/
theorem Keyed.loaded {w : Install} (h : w.Keyed) {certificate key : QByteArray}
    (hl : w.loadIdentity = .ok (certificate, key)) :
    w.onFile w.certPath ≠ [] ∧ certificate = Pem.certificate (w.onFile w.certPath) ∧
      key = Pem.key (w.onFile w.keyPath) := by
  unfold loadIdentity at hl
  extract_lets certPem keyPem at hl
  split_ifs at hl with hread huse
  obtain ⟨hcert, hkey⟩ := not_or.1 hread
  have ec : certPem = w.onFile w.certPath := h.readFile_eq hcert
  have ek : keyPem = w.onFile w.keyPath := h.readFile_eq hkey
  cases hl
  rw [← ec, ← ek]
  exact ⟨hcert, rfl, rfl⟩

variable [Qt] {w v : Install} {e : StoreEvent}

/-- Where `ensure` is called while the event goes on. -/
def ensures (w : Install) : StoreEvent → Option Install
  | .launch opened => if w.secureTransport then some (w.opening opened) else none
  | .setSecureTransport enabled =>
    if w.running ∧ enabled ∧ ¬ w.secureTransport ∧ ¬ w.identity.isValid then
      some { w with secureTransport := true }
    else none
  | _ => none

/-- The process is gone. -/
def halt (w : Install) : Install :=
  { w with
    running := false
    store := ⟨[]⟩
    identity := noIdentity }

omit [Gcm] [Pem] [Qt] in
theorem ensures_eq (h : w.ensures e = some v) : v.env = w.env ∧ Kept w v ∧ (w.Keyed → v.Keyed) := by
  cases e with
  | launch opened =>
    simp only [ensures] at h
    split at h
    · cases h
      exact ⟨rfl, ⟨rfl, rfl, fun _ _ => rfl⟩, fun hk => hk.opening opened⟩
    · cases h
  | setSecureTransport enabled =>
    simp only [ensures] at h
    split at h
    · cases h
      exact ⟨rfl, ⟨rfl, rfl, fun _ _ => rfl⟩, fun hk => ⟨hk.masterKey, hk.mode⟩⟩
    · cases h
  | _ => cases h

/-- The event leaves the disk as `ensure` does. -/
theorem step_ensures (h : w.ensures e = some v) : Kept v.issueIdentity.2 (w.step e) := by
  have ensured : v.identity.isValid = false → Kept v.issueIdentity.2 v.ensureIdentity := by
    intro hvalid
    rcases ensureIdentity_cases v with ⟨hv, -⟩ | ⟨-, heq, -⟩
    · cases hvalid.symm.trans hv
    · rw [heq]
      exact ⟨rfl, rfl, fun _ _ => rfl⟩
  cases e with
  | launch opened =>
    simp only [ensures] at h
    split at h
    · rename_i hon
      cases h
      obtain ⟨hdirectory, hmaster, hfiles⟩ := ensured rfl
      rw [step_launch, if_pos hon]
      exact ⟨hdirectory, hmaster, hfiles⟩
    · cases h
  | setSecureTransport enabled =>
    simp only [ensures] at h
    split at h
    · rename_i hon
      obtain ⟨hrun, hon, hoff, hinvalid⟩ := hon
      cases h
      have hstep : w.step (.setSecureTransport enabled) =
          Install.ensureIdentity { w with secureTransport := true } := by
        simp only [step, hrun, if_true, setSecureTransport, hon]
        rw [if_neg (Ne.symm hoff)]
      rw [hstep]
      exact ensured (eq_false_of_ne_true hinvalid)
    · cases h
  | _ => cases h

/-- The event leaves the identity files alone. -/
theorem step_kept (h : w.ensures e = none) : Kept w (w.step e) := by
  have same : Kept w w := ⟨rfl, rfl, fun _ _ => rfl⟩
  cases e with
  | launch opened =>
    simp only [ensures] at h
    split at h
    · cases h
    · rename_i hoff
      rw [step_launch, if_neg hoff]
      exact ⟨rfl, rfl, fun _ _ => rfl⟩
  | setSecureTransport enabled =>
    simp only [step]
    split
    · rename_i hrun
      unfold setSecureTransport
      split
      · exact same
      · rename_i hne
        extract_lets u
        have hu : Kept w u := ⟨rfl, rfl, fun _ _ => rfl⟩
        split
        · rename_i hon
          have hvalid : u.identity.isValid = true := by
            by_contra hinvalid
            have hoff : ¬ w.secureTransport = true := by
              rw [hon] at hne
              exact Ne.symm hne
            simp only [ensures] at h
            rw [if_pos ⟨hrun, hon, hoff, hinvalid⟩] at h
            cases h
          unfold ensureIdentity
          rw [if_pos hvalid]
          exact hu
        · exact hu
    · exact same
  | system env => exact ⟨rfl, rfl, fun _ _ => rfl⟩
  | history text =>
    simp only [step]
    split
    · exact (writeFile_aside (List.mem_singleton_self w.historyPath) text w).kept
        fun path hp => (identityPaths_ne w hp).2
    · exact same
  | edit now e =>
    simp only [step]
    split
    · unfold edit
      extract_lets u
      have hu : Kept w u := ⟨rfl, rfl, fun _ _ => rfl⟩
      split
      · have hsaved : Kept u u.saveKnown.2 :=
          (writeFile_aside (List.mem_singleton_self u.cataloguePath) u.known.toText u).kept
            fun path hp => (identityPaths_ne u hp).1
        exact ⟨hsaved.directory, hsaved.masterKey, hsaved.files⟩
      · exact hu
    · exact same

end

end Install

/-- What happens to the app happens to its end, or until the process is killed. -/
inductive CrashEvent
  | whole (e : StoreEvent)
  /-- The process is killed after so many of the operations of `ensure`. -/
  | killed (e : StoreEvent) (operations : Nat)

/-- The app, and the pairs that `generate` has come up with in any launch. -/
structure Provenance where
  install : Install
  pems : List PemPair

namespace Provenance

open Install

section
variable [Gcm] [Pem] [Qt]

def next (s : Provenance) : CrashEvent → Provenance
  | .whole e =>
    ⟨s.install.step e, s.pems ++ ((s.install.ensures e).bind (·.generates)).toList⟩
  | .killed e operations =>
    match s.install.ensures e with
    | some v => ⟨(Lib.performs perform (v.identityOps.take operations) v).2.halt,
        s.pems ++ v.generates.toList⟩
    | none => ⟨s.install.halt, s.pems⟩

def system : Lib.System Provenance CrashEvent := ⟨fun s => s.install.Start ∧ s.pems = [], next⟩

/-- The file system carries the removal of a certificate out. -/
def Removing (s : Provenance) (_ : CrashEvent) : Prop :=
  s.install.env.removes s.install.certPath = true

structure Inv (s : Provenance) : Prop where
  established : s.install.Established
  paired : s.install.Paired s.pems

variable {s : Provenance}

theorem Inv.start (h0 : system.start s) : s.Inv := by
  obtain ⟨hstart, -⟩ := h0
  exact ⟨hstart.established, fun hcert => absurd hstart.cert hcert⟩

omit [Gcm] [Pem] [Qt] in
theorem halt_kept (w : Install) : Kept w w.halt := ⟨rfl, rfl, fun _ _ => rfl⟩

theorem halt_established {w : Install} (h : w.Keyed) : w.halt.Established :=
  ⟨⟨h.masterKey, .inr rfl⟩, nofun⟩

theorem Inv.step (hg : Crypto.Lawful) (h : s.Inv) {e : CrashEvent} (hremoves : s.Removing e) :
    (s.next e).Inv := by
  have survives : ∀ e v, s.install.ensures e = some v → v.Keyed ∧ Lib.Survives perform
      (fun u => Aside v.identityPaths v u ∧ u.Paired (s.pems ++ v.generates.toList))
      v.identityOps v := by
    intro e v hv
    obtain ⟨henv, hkept, hkeyed⟩ := ensures_eq hv
    have hk := hkeyed h.established.toKeyed
    have hcert : v.certPath = s.install.certPath := by rw [certPath, certPath, hkept.directory]
    refine ⟨hk, identityOps_survives hg hk (hkept.paired h.paired) ?_⟩
    rw [henv, hcert]
    exact hremoves
  cases e with
  | whole e =>
    refine ⟨h.established.step hg e, ?_⟩
    simp only [next]
    cases hv : s.install.ensures e with
    | none =>
      simp only [Option.bind_none, Option.toList_none, List.append_nil]
      exact (step_kept hv).paired h.paired
    | some v =>
      have hpaired := (survives e v hv).2.whole.2
      rw [performs_identityOps] at hpaired
      exact (step_ensures hv).paired hpaired
  | killed e operations =>
    simp only [next]
    cases hv : s.install.ensures e with
    | none => exact ⟨halt_established h.established.toKeyed, (halt_kept _).paired h.paired⟩
    | some v =>
      obtain ⟨hk, hsurvives⟩ := survives e v hv
      obtain ⟨haside, hpaired⟩ := hsurvives operations
      exact ⟨halt_established (hk.aside haside), (halt_kept _).paired hpaired⟩

/-- Whenever both identity files are there they are of one pair that was generated, and what `load`
accepts is such a pair, wherever any launch was killed. -/
theorem pair_of_one_call (hg : Crypto.Lawful) (h : Lib.ReachedBy system Removing s) :
    (s.install.files s.install.certPath ≠ none → s.install.files s.install.keyPath ≠ none →
      ∃ pem ∈ s.pems, s.install.onFile s.install.certPath = pem.certificate ∧
        s.install.onFile s.install.keyPath = pem.key) ∧
    ∀ opened certificate key, (s.install.opening opened).loadIdentity = .ok (certificate, key) →
      ∃ pem ∈ s.pems, certificate = Pem.certificate pem.certificate ∧ key = Pem.key pem.key := by
  have hinv : s.Inv := h.invariant (fun _ => .start) fun _ _ hi hok => hi.step hg hok
  refine ⟨fun hcert _ => hinv.paired hcert, fun opened certificate key hload => ?_⟩
  obtain ⟨hread, rfl, rfl⟩ := (hinv.established.toKeyed.opening opened).loaded hload
  have hcert : s.install.files s.install.certPath ≠ none := by
    intro hnone
    refine hread ?_
    show (⟨s.install.masterKey⟩ : SecureStore).read (s.install.files s.install.certPath) = []
    rw [hnone]
    rfl
  obtain ⟨pem, hpem, hcertificate, hkey⟩ := hinv.paired hcert
  exact ⟨pem, hpem, congrArg Pem.certificate hcertificate, congrArg Pem.key hkey⟩

end

/-! ## A launch killed between two writes -/

section

local instance crashGcm : Gcm := Crypto.listed []

local instance crashPem : Pem := ⟨(·.drop PemHead.length), (·.drop PemHead.length)⟩

local instance crashQt : Qt := Ascii.qt [] []

/-- The first launch is killed when it has written the key, and the second is not. -/
theorem second_pair_whole : ∃ s : Provenance,
    s.install.files s.install.certPath = some secondPair.certificate ∧
    s.install.files s.install.keyPath = some secondPair.key ∧ s.pems.length = 2 ∧
    ∃ pem ∈ s.pems, s.install.onFile s.install.certPath = pem.certificate ∧
      s.install.onFile s.install.keyPath = pem.key := by
  let first : Provenance := ⟨unopened, []⟩
  let events : List CrashEvent := [
    .killed (.launch false) 1,
    .whole (.system (generating secondPair)),
    .whole (.launch false)]
  have hok : Lib.Allowed system Removing first events := ⟨rfl, rfl, rfl, trivial⟩
  have hstart : system.start first := ⟨unopened_start, rfl⟩
  have h : Lib.ReachedBy system Removing (events.foldl next first) :=
    Lib.ReachedBy.run events (.start hstart) hok
  have hcert : (events.foldl next first).install.files
      (events.foldl next first).install.certPath = some secondPair.certificate := by decide +kernel
  have hkey : (events.foldl next first).install.files
      (events.foldl next first).install.keyPath = some secondPair.key := by decide +kernel
  refine ⟨_, hcert, hkey, by decide +kernel, (pair_of_one_call ?_ h).1 ?_ ?_⟩
  · exact fun _ _ _ _ hs => by cases hs
  · rw [hcert]
    nofun
  · rw [hkey]
    nofun

/-- No launch has the storage key. -/
def InTheClear (_ : Provenance) : CrashEvent → Prop
  | .whole (.launch opened) => opened = false
  | .killed (.launch opened) _ => opened = false
  | _ => True

/-- The certificate cannot be read for a while, nor removed. -/
def clinging : StoreEnv :=
  { generating secondPair with
    readable := fun path => path ≠ installed.certPath
    removes := fun path => path ≠ installed.certPath }

/-- The second launch cannot read the certificate, nor remove it, and is killed when it has written
a new key. The old certificate and the new key are accepted. -/
theorem refused_removal_mixed : ∃ s : Provenance, Lib.ReachedBy system InTheClear s ∧
    s.install.files s.install.certPath ≠ none ∧ s.install.files s.install.keyPath ≠ none ∧
    (¬ ∃ pem ∈ s.pems, s.install.onFile s.install.certPath = pem.certificate ∧
      s.install.onFile s.install.keyPath = pem.key) ∧
    ∃ certificate key, (s.install.opening false).loadIdentity = .ok (certificate, key) ∧
      ¬ ∃ pem ∈ s.pems, certificate = Pem.certificate pem.certificate ∧ key = Pem.key pem.key := by
  let first : Provenance := ⟨unopened, []⟩
  let events : List CrashEvent := [
    .whole (.launch false),
    .whole (.system clinging),
    .killed (.launch false) 3,
    .whole (.system (generating secondPair))]
  have hok : Lib.Allowed system InTheClear first events := ⟨rfl, trivial, rfl, trivial, trivial⟩
  have hstart : system.start first := ⟨unopened_start, rfl⟩
  have h : Lib.ReachedBy system InTheClear (events.foldl next first) :=
    Lib.ReachedBy.run events (.start hstart) hok
  refine ⟨_, h, by decide +kernel, by decide +kernel, by decide +kernel,
    firstPair.certificate.drop PemHead.length, secondPair.key.drop PemHead.length, ?_, ?_⟩
  · decide +kernel
  · decide +kernel

end

end Provenance

end LocalSend
