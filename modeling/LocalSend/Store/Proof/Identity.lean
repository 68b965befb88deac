import LocalSend.Qt.Ascii
import LocalSend.Store.Proof.Aside

/-!
# The identity outlives the launch

`Install.Holds w f`: a launch with the key would read a key pair with fingerprint `f`. An identity
in memory is always one on file (`Established`), and every launch that can read the pair loads it.
A launch that finds the pair locked replaces it.
-/

set_option autoImplicit false

namespace LocalSend.Install

theorem not_sealed_of_pem {text : QByteArray} (h : PemHead.isPrefixOf text = true) :
    ¬ SecureStore.Sealed text := by
  obtain ⟨rest, rfl⟩ := List.isPrefixOf_iff_prefix.1 h
  simp [SecureStore.Sealed, SecureStore.Magic, PemHead, ascii]

theorem ne_of_pem {text : QByteArray} (h : PemHead.isPrefixOf text = true) : text ≠ [] := by
  intro he
  rw [he] at h
  exact absurd h (by decide)

section
variable [Gcm]

/-- What a launch with the key would read. -/
def onFile (w : Install) (path : QString) : QByteArray :=
  (⟨w.masterKey⟩ : SecureStore).read (w.files path)

/-- The key in the keystore, and what this launch has of it. -/
structure Keyed (w : Install) : Prop where
  masterKey : w.masterKey.length = Crypto.KeyBytes
  mode : w.store = ⟨w.masterKey⟩ ∨ w.store = ⟨[]⟩

/-- This launch can read the identity. -/
def Legible (w : Install) : Prop :=
  ∀ path ∈ w.identityPaths, w.env.readable path = true ∧ ¬ w.Locked path

variable {w v : Install}

omit [Gcm] in
theorem Keyed.aside {paths : List QString} (h : w.Keyed) (ha : Aside paths w v) : v.Keyed := by
  refine ⟨?_, ?_⟩
  · rw [ha.masterKey]
    exact h.masterKey
  · rw [ha.masterKey, ha.store]
    exact h.mode

/-- What a launch does read is what one with the key would. -/
theorem Keyed.readFile_eq (h : w.Keyed) {path : QString} (hr : w.readFile path ≠ []) :
    w.readFile path = w.onFile path := by
  unfold readFile onFile at *
  cases hf : w.files path with
  | none => simp [hf, SecureStore.read] at hr
  | some contents =>
    cases hread : w.env.readable path with
    | false => simp [hread, SecureStore.read] at hr
    | true =>
      rw [hf, hread, if_pos rfl] at hr
      rw [if_pos rfl]
      rcases h.mode with hm | hm
      · rw [hm]
      · rw [hm] at hr ⊢
        by_cases hs : SecureStore.Sealed contents
        · exact absurd (by simp [SecureStore.read, hs, SecureStore.isEncrypting,
            Crypto.KeyBytes]) hr
        · simp [SecureStore.read, hs]

theorem Keyed.readFile_of_legible (h : w.Keyed) (hl : w.Legible) {path : QString}
    (hp : path ∈ w.identityPaths) : w.readFile path = w.onFile path := by
  obtain ⟨hr, hopen⟩ := hl path hp
  unfold readFile onFile
  rw [hr, if_pos rfl]
  rcases h.mode with hm | hm
  · rw [hm]
  · cases hf : w.files path with
    | none => rfl
    | some contents =>
      have hs : ¬ SecureStore.Sealed contents :=
        fun hs => hopen ⟨by rw [hm]; rfl, contents, hf, hs⟩
      simp [SecureStore.read, hs]

theorem onFile_aside {paths : List QString} (h : Aside paths w v) {path : QString}
    (hp : path ∉ paths) : v.onFile path = w.onFile path := by
  unfold onFile
  rw [h.masterKey, h.files _ hp]

/-- A file that was written is on file. -/
theorem Keyed.writeFile_onFile (hg : Crypto.Lawful) (h : w.Keyed) {path : QString}
    {data : QByteArray} (hd : ¬ SecureStore.Sealed data) (hok : (w.writeFile path data).1 = true) :
    (w.writeFile path data).2.onFile path = data := by
  obtain ⟨payload, hp, hwrite⟩ := SecureStore.write_of_ok hok
  have hfiles : (w.writeFile path data).2.files = Function.update w.files path (some payload) :=
    congrArg Prod.snd hwrite
  unfold onFile
  rw [hfiles, Function.update_self]
  refine SecureStore.read_payload hg (nonce_length _ _) hd hp fun henc => ?_
  rcases h.mode with hm | hm
  · exact congrArg SecureStore.key hm.symm
  · rw [show w.store = ⟨[]⟩ from hm] at henc
    cases henc

variable [Qt] [Pem]

/-- The key pair on file. -/
structure Holds (w : Install) (fingerprint : QString) : Prop where
  cert : w.onFile w.certPath ≠ []
  key : w.onFile w.keyPath ≠ []
  usable : Pem.certificate (w.onFile w.certPath) ≠ [] ∧ Pem.key (w.onFile w.keyPath) ≠ []
  fingerprint : Certificate.fingerprintOf (Pem.certificate (w.onFile w.certPath)) = fingerprint

/-- An identity in memory is on file. -/
structure Established (w : Install) : Prop extends Keyed w where
  holds : w.identity.isValid = true → w.Holds w.identity.fingerprint

theorem Holds.aside {paths : List QString} {f : QString} (h : w.Holds f) (ha : Aside paths w v)
    (hp : ∀ path ∈ w.identityPaths, path ∉ paths) : v.Holds f := by
  obtain ⟨hc, hk⟩ := ha.certPath_eq
  have hcert : v.onFile v.certPath = w.onFile w.certPath := by
    rw [hc]
    exact onFile_aside ha (hp _ (by simp [identityPaths]))
  have hkey : v.onFile v.keyPath = w.onFile w.keyPath := by
    rw [hk]
    exact onFile_aside ha (hp _ (by simp [identityPaths]))
  obtain ⟨h₁, h₂, h₃, h₄⟩ := h
  rw [← hcert] at h₁ h₃ h₄
  rw [← hkey] at h₂ h₃
  exact ⟨h₁, h₂, h₃, h₄⟩

/-- The pair is a matter of what is on the disk. -/
theorem Holds.of_eq {f : QString} (h : w.Holds f) (hd : v.directory = w.directory)
    (hm : v.masterKey = w.masterKey) (hf : v.files = w.files) : v.Holds f := by
  have hc : v.onFile v.certPath = w.onFile w.certPath := by
    unfold onFile certPath
    rw [hd, hm, hf]
  have hk : v.onFile v.keyPath = w.onFile w.keyPath := by
    unfold onFile keyPath
    rw [hd, hm, hf]
  obtain ⟨h₁, h₂, h₃, h₄⟩ := h
  rw [← hc] at h₁ h₃ h₄
  rw [← hk] at h₂ h₃
  exact ⟨h₁, h₂, h₃, h₄⟩

/-- Both files are there. -/
theorem Holds.present {f : QString} (h : w.Holds f) :
    ¬ (w.files w.certPath = none ∨ w.files w.keyPath = none) := by
  rintro (hn | hn)
  · refine h.cert ?_
    unfold onFile
    rw [hn]
    rfl
  · refine h.key ?_
    unfold onFile
    rw [hn]
    rfl

/-! ## What a launch does about its identity -/

theorem Keyed.load (h : w.Keyed) {certificate key : QByteArray}
    (hl : w.loadIdentity = .ok (certificate, key)) :
    w.Holds (Certificate.fingerprintOf certificate) := by
  unfold loadIdentity at hl
  extract_lets certPem keyPem at hl
  split_ifs at hl with hread huse
  obtain ⟨hcert, hkey⟩ := not_or.1 hread
  obtain ⟨hcert', hkey'⟩ := not_or.1 huse
  have ec : certPem = w.onFile w.certPath := h.readFile_eq hcert
  have ek : keyPem = w.onFile w.keyPath := h.readFile_eq hkey
  cases hl
  rw [ec] at hcert hcert' ⊢
  rw [ek] at hkey hkey'
  exact ⟨hcert, hkey, ⟨hcert', hkey'⟩, rfl⟩

/-- A pair that can be read is loaded. -/
theorem Holds.load {f : QString} (h : w.Holds f) (hk : w.Keyed) (hl : w.Legible) :
    ∃ certificate key, w.loadIdentity = .ok (certificate, key) ∧
      Certificate.fingerprintOf certificate = f := by
  have ec : w.readFile w.certPath = w.onFile w.certPath :=
    hk.readFile_of_legible hl (by simp [identityPaths])
  have ek : w.readFile w.keyPath = w.onFile w.keyPath :=
    hk.readFile_of_legible hl (by simp [identityPaths])
  refine ⟨Pem.certificate (w.onFile w.certPath), Pem.key (w.onFile w.keyPath), ?_, h.fingerprint⟩
  unfold loadIdentity
  rw [ec, ek]
  simp [h.cert, h.key, h.usable.1, h.usable.2]

theorem Keyed.generate (hg : Crypto.Lawful) (h : w.Keyed) {certificate key : QByteArray}
    (hi : w.generateIdentity.1 = .ok (certificate, key)) :
    w.generateIdentity.2.Holds (Certificate.fingerprintOf certificate) := by
  unfold generateIdentity at hi ⊢
  cases hp : w.env.generated with
  | error reason => simp [hp] at hi
  | ok pem =>
    simp only [hp] at hi ⊢
    split at hi
    · cases hi
    · rename_i huse
      obtain ⟨hcert, hkey⟩ := not_or.1 huse
      rw [if_neg huse]
      rcases hw : w.writeFile w.keyPath pem.key with ⟨ok, v⟩
      have hv : Aside [w.keyPath] w v := by
        have ha := writeFile_aside (List.mem_singleton_self w.keyPath) pem.key w
        rwa [hw] at ha
      cases ok with
      | false => simp [hw] at hi
      | true =>
        have hk : v.onFile w.keyPath = pem.key := by
          have hk := h.writeFile_onFile hg (not_sealed_of_pem pem.begins.2) (by rw [hw])
          rwa [hw] at hk
        simp only [hw] at hi ⊢
        rcases hu : v.writeFile v.certPath pem.certificate with ⟨ok, u⟩
        have huv : Aside [v.certPath] v u := by
          have ha := writeFile_aside (List.mem_singleton_self v.certPath) pem.certificate v
          rwa [hu] at ha
        cases ok with
        | false => simp [hu] at hi
        | true =>
          have hc : u.onFile v.certPath = pem.certificate := by
            have hc := (h.aside hv).writeFile_onFile hg (not_sealed_of_pem pem.begins.1)
              (by rw [hu])
            rwa [hu] at hc
          have hk' : u.onFile v.keyPath = pem.key := by
            rw [onFile_aside huv (by simpa using keyPath_ne v), hv.certPath_eq.2, hk]
          obtain ⟨ec, ek⟩ := huv.certPath_eq
          simp only [hu] at hi ⊢
          cases hi
          rw [← ec] at hc
          rw [← ek] at hk'
          refine ⟨?_, ?_, ⟨?_, ?_⟩, ?_⟩
          · rw [hc]
            exact ne_of_pem pem.begins.1
          · rw [hk']
            exact ne_of_pem pem.begins.2
          · rw [hc]
            exact hcert
          · rw [hk']
            exact hkey
          · rw [hc]

/-- What is issued is on file, and a pair on file that can be read is what is issued. -/
theorem Keyed.issue (hg : Crypto.Lawful) (h : w.Keyed) {certificate key : QByteArray}
    (hi : w.issueIdentity.1 = .ok (certificate, key)) :
    w.issueIdentity.2.Holds (Certificate.fingerprintOf certificate) := by
  unfold issueIdentity at hi ⊢
  split_ifs at hi ⊢ with hdir hmissing
  · exact h.generate hg hi
  · cases hl : w.loadIdentity with
    | ok pair =>
      simp only [hl] at hi ⊢
      cases hi
      exact h.load hl
    | error reason =>
      simp only [hl] at hi ⊢
      refine Keyed.generate hg ?_ hi
      have h₁ := removeFile_aside (List.mem_singleton_self w.certPath) w
      have h₂ := removeFile_aside (List.mem_singleton_self w.keyPath) (w.removeFile w.certPath)
      exact (h.aside h₁).aside h₂

theorem Holds.issue {f : QString} (h : w.Holds f) (hk : w.Keyed)
    (hl : w.env.mkpath = true → w.Legible) :
    w.issueIdentity.2 = w ∧ ∀ certificate key, w.issueIdentity.1 = .ok (certificate, key) →
      Certificate.fingerprintOf certificate = f := by
  unfold issueIdentity
  by_cases hdir : w.env.mkpath = true
  · obtain ⟨certificate, key, hload, hf⟩ := h.load hk (hl hdir)
    rw [if_neg (not_not.2 hdir), if_neg h.present, hload]
    refine ⟨rfl, fun _ _ hi => ?_⟩
    cases hi
    exact hf
  · rw [if_pos hdir]
    exact ⟨rfl, fun _ _ hi => by cases hi⟩

/-- The identity in memory after `ensure` is the old one, if that was valid, or the issued one. -/
theorem ensureIdentity_cases (w : Install) :
    (w.identity.isValid = true ∧ w.ensureIdentity = w) ∨
    (w.identity.isValid = false ∧
      w.ensureIdentity = { w.issueIdentity.2 with identity := w.ensureIdentity.identity } ∧
      (w.ensureIdentity.identity.isValid = true → ∃ certificate key,
        w.issueIdentity.1 = .ok (certificate, key) ∧
        w.ensureIdentity.identity.fingerprint = Certificate.fingerprintOf certificate)) := by
  cases hv : w.identity.isValid with
  | true => exact .inl ⟨rfl, by unfold ensureIdentity; rw [hv, if_pos rfl]⟩
  | false =>
    refine .inr ⟨rfl, ?_⟩
    have he : w.ensureIdentity =
        { w.issueIdentity.2 with identity := (w.identity.ensure w.issueIdentity.1).2 } := by
      unfold ensureIdentity
      rw [hv, if_neg Bool.false_ne_true]
    rw [he]
    refine ⟨rfl, ?_⟩
    cases hi : w.issueIdentity.1 with
    | error reason =>
      intro hvalid
      simp only [Certificate.ensure, hv] at hvalid
      exact absurd (hv.symm.trans hvalid) (by decide)
    | ok pair =>
      obtain ⟨certificate, key⟩ := pair
      intro hvalid
      refine ⟨certificate, key, rfl, ?_⟩
      simp only [Certificate.ensure, hv, if_neg Bool.false_ne_true] at hvalid ⊢
      split at hvalid
      · exact absurd (hv.symm.trans hvalid) (by decide)
      · rename_i hne
        rw [if_neg hne]

/-- `ensure` puts no identity in memory that is not on file. -/
theorem Established.ensure (hg : Crypto.Lawful) (h : w.Established) :
    w.ensureIdentity.Established := by
  have hk : w.ensureIdentity.Keyed := h.toKeyed.aside (ensureIdentity_aside w)
  rcases ensureIdentity_cases w with ⟨-, he⟩ | ⟨-, he, hissued⟩
  · rw [he]
    exact h
  · refine ⟨hk, fun hv => ?_⟩
    obtain ⟨certificate, key, hi, hf⟩ := hissued hv
    have hh := h.toKeyed.issue hg hi
    rw [hf, he]
    exact hh.of_eq rfl rfl rfl

/-- A pair on file that can be read stays, and is the one in memory. -/
theorem Holds.ensure {f : QString} (h : w.Holds f) (hk : w.Keyed)
    (hl : w.identity.isValid = false → w.env.mkpath = true → w.Legible)
    (hf : w.identity.isValid = true → w.identity.fingerprint = f) :
    w.ensureIdentity.Holds f ∧ (w.ensureIdentity.identity.isValid = true →
      w.ensureIdentity.identity.fingerprint = f) := by
  rcases ensureIdentity_cases w with ⟨-, he⟩ | ⟨hv, he, hissued⟩
  · rw [he]
    exact ⟨h, hf⟩
  · obtain ⟨hsame, hload⟩ := h.issue hk (hl hv)
    refine ⟨?_, fun hvalid => ?_⟩
    · rw [he, hsame]
      exact h.of_eq rfl rfl rfl
    · obtain ⟨certificate, key, hi, hf'⟩ := hissued hvalid
      rw [hf', hload certificate key hi]

/-! ## Over the launches -/

/-- The start of a launch, before the settings are read. -/
def opening (opened : Bool) (w : Install) : Install :=
  { w with
    running := true
    store := ⟨if opened then w.masterKey else []⟩
    identity := noIdentity }

/-- When an event makes the app look for its identity: it can read the pair, or leaves it. -/
def Preserved (w : Install) : StoreEvent → Prop
  | .launch opened => w.secureTransport = true → w.env.mkpath = true → (w.opening opened).Legible
  | .setSecureTransport enabled => w.running = true → enabled = true → w.secureTransport = false →
    w.identity.isValid = false → w.env.mkpath = true → w.Legible
  | _ => True

theorem Start.established (h : w.Start) : w.Established := by
  refine ⟨⟨h.masterKey, .inr h.store⟩, fun hv => ?_⟩
  rw [h.identity] at hv
  cases hv

omit [Qt] [Gcm] [Pem] in
theorem Keyed.opening (h : w.Keyed) (opened : Bool) : (w.opening opened).Keyed := by
  refine ⟨h.masterKey, ?_⟩
  cases opened with
  | true => exact .inl rfl
  | false => exact .inr rfl

theorem step_launch (w : Install) (opened : Bool) : w.step (.launch opened) =
    loadKnown (if w.secureTransport then (w.opening opened).ensureIdentity
      else w.opening opened) := rfl

/-- The pair on file and the identity in memory are as they were. -/
structure Untouched (w v : Install) : Prop where
  holds : ∀ f, w.Holds f → v.Holds f
  keyed : w.Keyed → v.Keyed
  identity : v.identity = w.identity

theorem Untouched.aside {paths : List QString} (ha : Aside paths w v)
    (hp : ∀ path ∈ w.identityPaths, path ∉ paths) (hi : v.identity = w.identity) :
    Untouched w v := ⟨fun _ h => h.aside ha hp, fun h => h.aside ha, hi⟩

theorem Untouched.established (hu : Untouched w v) (h : w.Established) : v.Established := by
  refine ⟨hu.keyed h.toKeyed, fun hv => ?_⟩
  rw [hu.identity] at hv ⊢
  exact hu.holds _ (h.holds hv)

/-- An event other than a launch or a switch of the transport. -/
theorem step_untouched (w : Install) (e : StoreEvent) (hl : ∀ opened, e ≠ .launch opened)
    (ht : ∀ enabled, e ≠ .setSecureTransport enabled) : Untouched w (w.step e) := by
  have same : Untouched w w := ⟨fun _ h => h, fun h => h, rfl⟩
  cases e with
  | launch opened => exact absurd rfl (hl opened)
  | setSecureTransport enabled => exact absurd rfl (ht enabled)
  | system env => exact ⟨fun f h => h.of_eq rfl rfl rfl, fun h => ⟨h.masterKey, h.mode⟩, rfl⟩
  | history text =>
    simp only [step]
    split
    · exact .aside (writeFile_aside (List.mem_singleton_self w.historyPath) text w)
        (fun _ hp => (identityPaths_ne w hp).2) rfl
    · exact same
  | edit now e =>
    simp only [step]
    split
    · unfold edit
      extract_lets w'
      have hw : Untouched w w' := ⟨fun f h => h.of_eq rfl rfl rfl, fun h => ⟨h.masterKey, h.mode⟩, rfl⟩
      split
      · have hs : Untouched w' w'.saveKnown.2 :=
          .aside (writeFile_aside (List.mem_singleton_self w'.cataloguePath) w'.known.toText w')
            (fun _ hp => (identityPaths_ne w' hp).1) rfl
        exact ⟨fun f h => hs.holds f (hw.holds f h), fun h => hs.keyed (hw.keyed h),
          hs.identity.trans hw.identity⟩
      · exact hw
    · exact same

theorem Established.step (hg : Crypto.Lawful) (h : w.Established) (e : StoreEvent) :
    (w.step e).Established := by
  cases e with
  | launch opened =>
    have h₁ : (w.opening opened).Established :=
      ⟨h.toKeyed.opening opened, fun hv => by cases hv⟩
    rw [step_launch]
    split
    · have h₂ := h₁.ensure hg
      exact ⟨⟨h₂.masterKey, h₂.mode⟩, fun hv => (h₂.holds hv).of_eq rfl rfl rfl⟩
    · exact ⟨⟨h₁.masterKey, h₁.mode⟩, fun hv => by cases hv⟩
  | setSecureTransport enabled =>
    simp only [Install.step]
    split
    · unfold Install.setSecureTransport
      split
      · exact h
      · extract_lets w₁
        have h₁ : w₁.Established :=
          ⟨⟨h.masterKey, h.mode⟩, fun hv => (h.holds hv).of_eq rfl rfl rfl⟩
        split
        · exact h₁.ensure hg
        · exact h₁
    · exact h
  | _ => exact (step_untouched w _ (by simp) (by simp)).established h

/-- A pair on file is the only identity there is, as long as it can be read when it is needed. -/
def Presents (f : QString) (w : Install) : Prop :=
  w.Keyed ∧ w.Holds f ∧ (w.identity.isValid = true → w.identity.fingerprint = f)

theorem Untouched.presents {f : QString} (hu : Untouched w v) (h : w.Presents f) :
    v.Presents f := by
  refine ⟨hu.keyed h.1, hu.holds f h.2.1, ?_⟩
  rw [hu.identity]
  exact h.2.2

theorem Presents.step {f : QString} (h : w.Presents f) (e : StoreEvent) (hp : w.Preserved e) :
    (w.step e).Presents f := by
  obtain ⟨hk, hh, hf⟩ := h
  cases e with
  | launch opened =>
    have hk₁ : (w.opening opened).Keyed := hk.opening opened
    have hh₁ : (w.opening opened).Holds f := hh.of_eq rfl rfl rfl
    rw [step_launch]
    split
    · rename_i htls
      obtain ⟨hh₂, hf₂⟩ := hh₁.ensure hk₁ (fun _ hm => hp htls hm) (fun hv => by cases hv)
      have hk₂ := hk₁.aside (ensureIdentity_aside _)
      exact ⟨⟨hk₂.masterKey, hk₂.mode⟩, hh₂.of_eq rfl rfl rfl, hf₂⟩
    · exact ⟨⟨hk₁.masterKey, hk₁.mode⟩, hh₁.of_eq rfl rfl rfl, fun hv => by cases hv⟩
  | setSecureTransport enabled =>
    simp only [Install.step]
    split
    · rename_i hrun
      unfold Install.setSecureTransport
      split
      · exact ⟨hk, hh, hf⟩
      · rename_i hne
        extract_lets w₁
        have hk₁ : w₁.Keyed := ⟨hk.masterKey, hk.mode⟩
        have hh₁ : w₁.Holds f := hh.of_eq rfl rfl rfl
        split
        · rename_i hon
          have hoff : w.secureTransport = false := by
            rw [hon] at hne
            simpa using Ne.symm hne
          obtain ⟨hh₂, hf₂⟩ := hh₁.ensure hk₁ (fun hv hm => hp hrun hon hoff hv hm) hf
          exact ⟨hk₁.aside (ensureIdentity_aside _), hh₂, hf₂⟩
        · exact ⟨hk₁, hh₁, hf⟩
    · exact ⟨hk, hh, hf⟩
  | _ => exact (step_untouched w _ (by simp) (by simp)).presents ⟨hk, hh, hf⟩

/-- Once a launch is encrypted, every later encrypted state presents its fingerprint. -/
theorem fingerprint_kept (hg : Crypto.Lawful) (h : Lib.Reached system w)
    (he : w.isEncrypted = true) (hv : Lib.ReachedBy (system.onward w) Preserved v)
    (he' : v.isEncrypted = true) : v.identity.fingerprint = w.identity.fingerprint := by
  have hw : w.Established := h.invariant (I := Established) (fun _ hs => Start.established hs)
    fun _ e hi _ => hi.step hg e
  obtain ⟨-, hid⟩ := Bool.and_eq_true_iff.1 he
  obtain ⟨-, hid'⟩ := Bool.and_eq_true_iff.1 he'
  have hvp : v.Presents w.identity.fingerprint := by
    refine hv.invariant (I := Presents w.identity.fingerprint) (fun u hu => ?_)
      fun _ e hi hok => hi.step e hok
    rw [show u = w from hu]
    exact ⟨hw.toKeyed, hw.holds hid, fun _ => rfl⟩
  exact hvp.2.2 hid'

end

/-! ## A pair replaced by a launch that could not read it -/

/-- The system that would generate this pair. -/
def generating (pem : PemPair) : StoreEnv :=
  ⟨true, fun _ => true, fun _ => true, fun _ => true, .ok pem⟩

def firstPair : PemPair :=
  ⟨ascii "-----BEGIN C1", ascii "-----BEGIN K1", by decide⟩

def secondPair : PemPair :=
  ⟨ascii "-----BEGIN C2", ascii "-----BEGIN K2", by decide⟩

/-- A fresh install, about to generate the first pair. -/
def unopened : Install := { installed with secureTransport := true, env := generating firstPair }

theorem unopened_start : unopened.Start := ⟨rfl, rfl, rfl, rfl, rfl, rfl, rfl, rfl⟩

section

/-- The two files of the first pair, sealed. -/
local instance pairGcm : Gcm := Crypto.listed [
  { key := List.replicate 32 7
    nonce := List.replicate 12 0
    plaintext := firstPair.key
    body := [76, 245, 137, 159, 214, 208, 78, 175, 168, 73, 175, 47, 245]
    tag := [221, 105, 69, 9, 176, 217, 71, 135, 93, 64, 196, 93, 82, 178, 143, 48] },
  { key := List.replicate 32 7
    nonce := List.replicate 12 1
    plaintext := firstPair.certificate
    body := [91, 204, 164, 154, 189, 253, 169, 73, 152, 154, 252, 98, 65]
    tag := [45, 16, 115, 253, 65, 255, 226, 180, 156, 169, 222, 214, 183, 122, 12, 3] }]

local instance pairPem : Pem := ⟨(·.drop PemHead.length), (·.drop PemHead.length)⟩

local instance digestQt : Qt := Ascii.qt [] [
  (ascii "C1", [171, 134, 29, 193, 112, 220, 46, 67, 34, 78, 69, 39, 141, 61, 49, 166, 117, 185,
    235, 195, 76, 155, 15, 72, 192, 102, 202, 30, 234, 237, 142, 230]),
  (ascii "C2", [150, 133, 235, 118, 86, 97, 234, 59, 149, 243, 30, 27, 179, 195, 181, 80, 29, 12,
    42, 205, 243, 83, 254, 234, 164, 216, 254, 50, 249, 95, 119, 251])]

/-- A launch without the key comes between two with it. -/
theorem fingerprint_lost : ∃ w v : Install, Lib.Reached system w ∧ w.isEncrypted = true ∧
    Lib.Reached (system.onward w) v ∧ v.isEncrypted = true ∧
    v.identity.fingerprint ≠ w.identity.fingerprint := by
  let events : List StoreEvent := [.system (generating secondPair), .launch false, .launch true]
  exact ⟨unopened.step (.launch true), events.foldl step (unopened.step (.launch true)),
    Lib.ReachedBy.run_any [StoreEvent.launch true] (.start unopened_start), by decide +kernel,
    Lib.ReachedBy.run_any events (.start rfl), by decide +kernel, by decide +kernel⟩

end

section

local instance noGcm : Gcm := Crypto.listed []

local instance clearPem : Pem := ⟨(·.drop PemHead.length), (·.drop PemHead.length)⟩

local instance oneDigestQt : Qt := Ascii.qt [] [
  (ascii "C1", [171, 134, 29, 193, 112, 220, 46, 67, 34, 78, 69, 39, 141, 61, 49, 166, 117, 185,
    235, 195, 76, 155, 15, 72, 192, 102, 202, 30, 234, 237, 142, 230])]

/-- A pair written without the key is still the one of a launch with it. -/
theorem fingerprint_kept_clear : ∃ w v : Install, w.store.isEncrypting = false ∧
    v.store.isEncrypting = true ∧ v.identity.fingerprint = w.identity.fingerprint := by
  let w := unopened.step (.launch false)
  let events : List StoreEvent := [.system (generating secondPair), .launch true]
  have hlegible : ((w.step (.system (generating secondPair))).opening true).Legible :=
    fun path _ => ⟨rfl, fun hl => absurd hl.1 (by decide)⟩
  have hok : Lib.Allowed (system.onward w) Preserved w events :=
    ⟨trivial, fun _ _ => hlegible, trivial⟩
  exact ⟨w, events.foldl step w, by decide, by decide,
    fingerprint_kept (fun _ _ _ _ hs => by cases hs)
      (Lib.ReachedBy.run_any [StoreEvent.launch false] (.start unopened_start))
      (by decide +kernel) (Lib.ReachedBy.run events (.start rfl) hok) (by decide +kernel)⟩

end

end LocalSend.Install
