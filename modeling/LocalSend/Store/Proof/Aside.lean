import LocalSend.Store.Launches

/-!
# What each operation on the disk leaves alone

`Install.Aside paths`: no file changed but those of `paths`, and nothing in memory but the
identity. One lemma per operation.
-/

set_option autoImplicit false

namespace LocalSend.Install

/-- Between `w` and `v` no file changed but those of `paths`, and nothing in memory but the
identity. -/
structure Aside (paths : List QString) (w v : Install) : Prop where
  directory : v.directory = w.directory
  env : v.env = w.env
  masterKey : v.masterKey = w.masterKey
  secureTransport : v.secureTransport = w.secureTransport
  running : v.running = w.running
  store : v.store = w.store
  known : v.known = w.known
  edits : v.edits = w.edits
  files : ∀ path, path ∉ paths → v.files path = w.files path

theorem Aside.refl (paths : List QString) (w : Install) : Aside paths w w :=
  ⟨rfl, rfl, rfl, rfl, rfl, rfl, rfl, rfl, fun _ _ => rfl⟩

theorem Aside.trans {paths : List QString} {u v w : Install} (h : Aside paths u v)
    (h' : Aside paths v w) : Aside paths u w where
  directory := h'.directory.trans h.directory
  env := h'.env.trans h.env
  masterKey := h'.masterKey.trans h.masterKey
  secureTransport := h'.secureTransport.trans h.secureTransport
  running := h'.running.trans h.running
  store := h'.store.trans h.store
  known := h'.known.trans h.known
  edits := h'.edits.trans h.edits
  files path hp := (h'.files path hp).trans (h.files path hp)

/-- The files of the identity. -/
def identityPaths (w : Install) : List QString := [w.certPath, w.keyPath]

theorem Aside.certPath_eq {paths : List QString} {w v : Install} (h : Aside paths w v) :
    v.certPath = w.certPath ∧ v.keyPath = w.keyPath := by
  unfold certPath keyPath
  rw [h.directory]
  exact ⟨rfl, rfl⟩

theorem Aside.paths {paths : List QString} {w v : Install} (h : Aside paths w v) :
    v.identityPaths = w.identityPaths := by
  unfold identityPaths
  rw [h.certPath_eq.1, h.certPath_eq.2]

section
variable [Gcm]

theorem writeFile_aside {paths : List QString} {path : QString} (hp : path ∈ paths)
    (data : QByteArray) (w : Install) : Aside paths w (w.writeFile path data).2 := by
  unfold writeFile SecureStore.write
  simp only
  refine ⟨rfl, rfl, rfl, rfl, rfl, rfl, rfl, rfl, fun other ho => ?_⟩
  have hne : other ≠ path := fun he => ho (he ▸ hp)
  simp only
  cases w.store.payload _ data with
  | none => rfl
  | some payload =>
    simp only
    split
    · exact Function.update_of_ne hne _ _
    · rfl

/-- A write that fails changes no file. -/
theorem writeFile_failed {w : Install} {path : QString} {data : QByteArray}
    (h : (w.writeFile path data).1 = false) : (w.writeFile path data).2.files = w.files := by
  simp only [writeFile, SecureStore.write] at h ⊢
  cases hp : w.store.payload (Crypto.randomBytes w.random w.drawn Crypto.NonceBytes) data with
  | none => rfl
  | some payload =>
    rw [hp] at h
    simp only at h ⊢
    split at h
    · cases h
    · rename_i hcommits
      rw [if_neg hcommits]

omit [Gcm] in
theorem removeFile_aside {paths : List QString} {path : QString} (hp : path ∈ paths)
    (w : Install) : Aside paths w (w.removeFile path) := by
  unfold removeFile
  split
  · refine ⟨rfl, rfl, rfl, rfl, rfl, rfl, rfl, rfl, fun other ho => ?_⟩
    exact Function.update_of_ne (fun he : other = path => ho (he ▸ hp)) _ _
  · exact .refl paths w

variable [Pem]

theorem generateIdentity_aside (w : Install) :
    Aside w.identityPaths w w.generateIdentity.2 := by
  unfold generateIdentity
  cases w.env.generated with
  | error reason => exact .refl _ w
  | ok pem =>
    simp only
    split
    · exact .refl _ w
    · have hkey : Aside w.identityPaths w (w.writeFile w.keyPath pem.key).2 :=
        writeFile_aside (by simp [identityPaths]) pem.key w
      rcases hw : w.writeFile w.keyPath pem.key with ⟨ok, v⟩
      rw [hw] at hkey
      cases ok with
      | false => exact hkey
      | true =>
        have hcert : Aside v.identityPaths v (v.writeFile v.certPath pem.certificate).2 :=
          writeFile_aside (by simp [identityPaths]) pem.certificate v
        rw [hkey.paths] at hcert
        simp only
        rcases hw' : v.writeFile v.certPath pem.certificate with ⟨ok, u⟩
        rw [hw'] at hcert
        cases ok with
        | false => exact hkey.trans hcert
        | true => exact hkey.trans hcert

theorem issueIdentity_aside (w : Install) : Aside w.identityPaths w w.issueIdentity.2 := by
  unfold issueIdentity
  split
  · exact .refl _ w
  · split
    · exact generateIdentity_aside w
    · cases w.loadIdentity with
      | ok pair => exact .refl _ w
      | error reason =>
        have h₁ : Aside w.identityPaths w (w.removeFile w.certPath) :=
          removeFile_aside (by simp [identityPaths]) w
        have h₂ : Aside w.identityPaths (w.removeFile w.certPath)
            ((w.removeFile w.certPath).removeFile w.keyPath) :=
          removeFile_aside (by simp [identityPaths]) (w.removeFile w.certPath)
        have h₃ := generateIdentity_aside ((w.removeFile w.certPath).removeFile w.keyPath)
        rw [(h₁.trans h₂).paths] at h₃
        exact (h₁.trans h₂).trans h₃

theorem ensureIdentity_aside [Qt] (w : Install) : Aside w.identityPaths w w.ensureIdentity := by
  unfold ensureIdentity
  split
  · exact .refl _ w
  · have h := issueIdentity_aside w
    exact ⟨h.directory, h.env, h.masterKey, h.secureTransport, h.running, h.store, h.known,
      h.edits, h.files⟩

end

/-- A nonce is whole or missing. -/
theorem nonce_length (source : Crypto.Random) (n : Nat) :
    Crypto.randomBytes source n Crypto.NonceBytes = [] ∨
      (Crypto.randomBytes source n Crypto.NonceBytes).length = Crypto.NonceBytes := by
  unfold Crypto.randomBytes
  cases source n with
  | none => exact .inl rfl
  | some bytes => exact .inr (by simp)

/-- The four files are different ones. -/
theorem cataloguePath_ne (w : Install) :
    w.cataloguePath ∉ w.identityPaths ∧ w.cataloguePath ∉ [w.historyPath] := by
  have ne : ∀ a b : QString, a ≠ b → w.directory ++ a ≠ w.directory ++ b :=
    fun a b h he => h (List.append_cancel_left he)
  unfold cataloguePath identityPaths certPath keyPath historyPath
  refine ⟨?_, ?_⟩ <;> simp only [List.mem_cons, List.not_mem_nil, or_false, not_or]
  · exact ⟨ne _ _ (by decide), ne _ _ (by decide)⟩
  · exact ne _ _ (by decide)

theorem keyPath_ne (w : Install) : w.keyPath ≠ w.certPath := by
  intro h
  exact absurd (List.append_cancel_left h) (by decide)

theorem identityPaths_ne (w : Install) {path : QString} (hp : path ∈ w.identityPaths) :
    path ∉ [w.cataloguePath] ∧ path ∉ [w.historyPath] := by
  have ne : ∀ a b : QString, a ≠ b → w.directory ++ a ≠ w.directory ++ b :=
    fun a b h he => h (List.append_cancel_left he)
  simp only [identityPaths, List.mem_cons, List.not_mem_nil, or_false] at hp
  simp only [List.mem_singleton]
  rcases hp with rfl | rfl
  · exact ⟨ne _ _ (by decide), ne _ _ (by decide)⟩
  · exact ⟨ne _ _ (by decide), ne _ _ (by decide)⟩

end LocalSend.Install
