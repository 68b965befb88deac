import LocalSend.Store.Proof.Trust

/-!
# Files that somebody else can write

The store of an app that has its key, over files that an attacker without the key may replace at
any time (`Vault`). What the attacker puts into a file and the cipher opens was sealed by the app
(`Unforged`). A file that is marked as encrypted then reads as nothing or as a text that the app
wrote (`marked_authentic`); a file without the mark is read as it stands, whoever wrote it
(`unmarked_admitted`).
-/

set_option autoImplicit false

namespace LocalSend

/-- What the app writes into its files. -/
inductive AppText [Qt]
  | known (k : KnownDevices) (spelled : k.Spelled)
  /-- The history is an array. -/
  | history (text : QByteArray) (array : text.head? = some 91)
  | pem (text : QByteArray) (begins : PemHead.isPrefixOf text = true)

structure Vault [Qt] where
  store : SecureStore
  files : Files
  random : Crypto.Random
  drawn : Nat
  /-- A ghost: what was handed to a write, and with which nonce. -/
  written : List (QByteArray × AppText)

inductive VaultEvent [Qt]
  | write (path : QString) (text : AppText) (commits : Bool)
  /-- Somebody replaces a file, or removes it. -/
  | replace (path : QString) (contents : Option QByteArray)

section
variable [Qt]

def AppText.bytes : AppText → QByteArray
  | .known k _ => k.toText
  | .history text _ | .pem text _ => text

namespace Vault

variable [Gcm]

def step (w : Vault) : VaultEvent → Vault
  | .write path text commits =>
    let nonce := Crypto.randomBytes w.random w.drawn Crypto.NonceBytes
    { w with
      files := (w.store.write w.files commits path nonce text.bytes).2
      drawn := w.drawn + 1
      written := w.written ++ [(nonce, text)] }
  | .replace path contents => { w with files := Function.update w.files path contents }

/-- The blob was sealed in a write. -/
def Genuine (w : Vault) (blob : QByteArray) : Prop :=
  ∃ nonce text, (nonce, text) ∈ w.written ∧ blob = Crypto.encrypt text.bytes w.store.key nonce

/-- What the file is marked to hold, if it opens, was sealed in a write. -/
def Trusted (w : Vault) (contents : QByteArray) : Prop := SecureStore.Sealed contents →
  Crypto.decrypt (contents.drop SecureStore.Magic.length) w.store.key ≠ [] →
    w.Genuine (contents.drop SecureStore.Magic.length)

/-- The app has its key, and has written nothing with it. -/
structure Start (w : Vault) : Prop where
  key : w.store.isEncrypting = true
  files : ∀ path contents, w.files path = some contents → w.Trusted contents
  written : w.written = []

def system : Lib.System Vault VaultEvent := ⟨Start, step⟩

/-- Without the key, nobody makes a blob that opens. -/
def Unforged (w : Vault) : VaultEvent → Prop
  | .replace _ contents => ∀ c, contents = some c → w.Trusted c
  | .write _ _ _ => True

structure Inv (w : Vault) : Prop where
  key : w.store.isEncrypting = true
  files : ∀ path contents, w.files path = some contents → w.Trusted contents
  nonces : ∀ entry ∈ w.written, entry.1 = [] ∨ entry.1.length = Crypto.NonceBytes

omit [Gcm] in
theorem Start.inv [Gcm] {w : Vault} (h : w.Start) : w.Inv := by
  refine ⟨h.key, h.files, fun entry he => ?_⟩
  rw [h.written] at he
  cases he

theorem Trusted.mono {w v : Vault} {contents : QByteArray} (h : w.Trusted contents)
    (hstore : v.store = w.store) (hwritten : w.written ⊆ v.written) : v.Trusted contents := by
  intro hs hd
  rw [hstore] at hd
  obtain ⟨nonce, text, hmem, hblob⟩ := h hs hd
  exact ⟨nonce, text, hwritten hmem, hblob.trans (by rw [hstore])⟩

theorem Inv.step {w : Vault} (h : w.Inv) (e : VaultEvent) (hok : w.Unforged e) :
    (w.step e).Inv := by
  cases e with
  | write path text commits =>
    simp only [Vault.step]
    generalize hn : Crypto.randomBytes w.random w.drawn Crypto.NonceBytes = nonce
    refine ⟨h.key, fun other contents hf => ?_, fun entry he => ?_⟩
    · have hmono : ∀ {contents}, w.Trusted contents → Trusted { w with
          files := (w.store.write w.files commits path nonce text.bytes).2
          drawn := w.drawn + 1
          written := w.written ++ [(nonce, text)] } contents :=
        fun ht => ht.mono rfl (List.subset_append_left _ _)
      simp only [SecureStore.write, SecureStore.payload, h.key, if_true] at hf
      by_cases hsealed : Crypto.encrypt text.bytes w.store.key nonce = []
      · rw [if_pos hsealed] at hf
        exact hmono (h.files other contents hf)
      · rw [if_neg hsealed] at hf
        cases commits with
        | false => exact hmono (h.files other contents hf)
        | true =>
          by_cases ho : other = path
          · subst ho
            simp only [if_true, Function.update_self, Option.some.injEq] at hf
            subst hf
            intro _ _
            rw [List.drop_left]
            exact ⟨nonce, text, List.mem_append_right _ (List.mem_singleton_self _), rfl⟩
          · simp only [if_true, Function.update_of_ne ho] at hf
            exact hmono (h.files other contents hf)
    · rcases List.mem_append.1 he with he | he
      · exact h.nonces entry he
      · obtain rfl := List.mem_singleton.1 he
        rw [← hn]
        exact Install.nonce_length w.random w.drawn
  | replace path contents =>
    refine ⟨h.key, fun other c hf => ?_, h.nonces⟩
    simp only [Vault.step] at hf
    by_cases ho : other = path
    · subst ho
      rw [Function.update_self] at hf
      exact hok c hf
    · rw [Function.update_of_ne ho] at hf
      exact h.files other c hf

omit [Gcm] in
/-- A text that is no record admits nothing. -/
theorem ofText_of_not_known (hj : KnownDevices.RoundTrips)
    (hother : ∀ first rest, first = 91 ∨ first = 45 → Qt.fromJson (first :: rest) = none)
    (text : AppText) : KnownDevices.ofText text.bytes = ⟨∅⟩ ∨
      ∃ k spelled, text = .known k spelled ∧ k.Same (KnownDevices.ofText text.bytes) := by
  have hnone : ∀ bytes : QByteArray, Qt.fromJson bytes = none →
      KnownDevices.ofText bytes = ⟨∅⟩ := by
    intro bytes hb
    rw [KnownDevices.ofText, hb]
  cases text with
  | known k spelled => exact .inr ⟨k, spelled, rfl, hj.same spelled⟩
  | history text array =>
    refine .inl (hnone _ ?_)
    cases text with
    | nil => cases array
    | cons first rest => exact hother first rest (.inl (Option.some.inj array))
  | pem text begins =>
    refine .inl (hnone _ ?_)
    obtain ⟨rest, hrest⟩ := List.isPrefixOf_iff_prefix.1 begins
    subst hrest
    exact hother 45 _ (.inr rfl)

/-- A file that is marked as encrypted reads as nothing or as what the app wrote, and the record
read from it is empty or one that the app wrote. A file without the mark is read as it stands. -/
theorem marked_authentic (hg : Crypto.Lawful) (hj : KnownDevices.RoundTrips)
    (hother : ∀ first rest, first = 91 ∨ first = 45 → Qt.fromJson (first :: rest) = none)
    {w : Vault} (h : Lib.ReachedBy system Unforged w) {path : QString} {contents : QByteArray}
    (hf : w.files path = some contents) :
    (SecureStore.Sealed contents →
      (w.store.read (w.files path) = [] ∨
        ∃ entry ∈ w.written, w.store.read (w.files path) = entry.2.bytes) ∧
      (KnownDevices.ofText (w.store.read (w.files path)) = ⟨∅⟩ ∨
        ∃ entry ∈ w.written, ∃ k spelled, entry.2 = .known k spelled ∧
          k.Same (KnownDevices.ofText (w.store.read (w.files path))))) ∧
    (¬ SecureStore.Sealed contents → w.store.read (w.files path) = contents) := by
  have hinv : w.Inv := h.invariant (I := Inv) (fun _ hs => Start.inv hs)
    fun _ e hi hok => hi.step e hok
  rw [hf]
  refine ⟨fun hs => ?_, fun hs => by simp [SecureStore.read, hs]⟩
  have hread : w.store.read (some contents) =
      Crypto.decrypt (contents.drop SecureStore.Magic.length) w.store.key := by
    simp [SecureStore.read, hs, hinv.key]
  by_cases hd : Crypto.decrypt (contents.drop SecureStore.Magic.length) w.store.key = []
  · rw [hread, hd]
    refine ⟨.inl rfl, .inl ?_⟩
    rw [KnownDevices.ofText, hj.nothing]
  · obtain ⟨nonce, text, hmem, hblob⟩ := hinv.files path contents hf hs hd
    have hne : Crypto.encrypt text.bytes w.store.key nonce ≠ [] := by
      intro hnil
      rw [hblob, hnil] at hd
      exact hd (by simp [Crypto.decrypt, Crypto.NonceBytes])
    have hbytes : w.store.read (some contents) = text.bytes := by
      rw [hread, hblob]
      exact Crypto.decrypt_encrypt hg (hinv.nonces _ hmem) hne
    rw [hbytes]
    refine ⟨.inr ⟨_, hmem, rfl⟩, ?_⟩
    rcases ofText_of_not_known hj hother text with hempty | ⟨k, spelled, hk, hsame⟩
    · exact .inl hempty
    · exact .inr ⟨_, hmem, k, spelled, hk, hsame⟩

/-- A store with its key, and no files. -/
def empty : Vault where
  store := ⟨List.replicate 32 7⟩
  files _ := none
  random := countingSource
  drawn := 0
  written := []

theorem empty_start : empty.Start :=
  ⟨rfl, fun _ _ hf => (by cases hf), rfl⟩

end Vault

end

/-! ## A record that is sealed, and one that was never written -/

namespace Vault

section

local instance bracedQt : Qt :=
  { Ascii.qt [] [] with
    toJson := Install.codedText Install.laptopBlocked
    fromJson := fun text =>
      if text.head? = some 123 then Install.ofCodedText Install.laptopBlocked text else none }

local instance bracedGcm : Gcm := Crypto.listed [Install.laptopSealing]

theorem bracedQt_roundTrips : KnownDevices.RoundTrips where
  brace := Install.codedText_brace _
  nothing := rfl
  fields k _ := by
    refine ⟨k.document, ?_, fun _ => rfl⟩
    obtain ⟨rest, hrest⟩ := Install.codedText_brace Install.laptopBlocked k.document
    change (if (Install.codedText _ k.document).head? = some 123 then
      Install.ofCodedText _ (Install.codedText _ k.document) else none) = _
    rw [if_pos (by rw [hrest]; rfl), Install.ofCodedText_codedText]

theorem laptop_spelled : Install.laptopBlocked.Spelled := by
  intro key e he
  by_cases hk : key = str "AB12"
  · subst hk
    obtain rfl := Option.some.inj ((AList.lookup_insert _).symm.trans he)
    exact ⟨by decide, by decide, by decide⟩
  · have hnone := (AList.lookup_insert_ne hk).symm.trans he
    cases hnone

def laptopWritten : Vault :=
  empty.step (.write (str "/data/known-devices.json")
    (.known Install.laptopBlocked laptop_spelled) true)

theorem laptop_authentic : ∃ contents,
    laptopWritten.files (str "/data/known-devices.json") = some contents ∧
    (laptopWritten.store.read (laptopWritten.files (str "/data/known-devices.json")) = [] ∨
      ∃ entry ∈ laptopWritten.written, laptopWritten.store.read
        (laptopWritten.files (str "/data/known-devices.json")) = entry.2.bytes) := by
  have hreached : Lib.ReachedBy system Unforged laptopWritten :=
    Lib.ReachedBy.next (VaultEvent.write _ _ _) (.start empty_start) trivial
  have hother : ∀ (first : UInt8) (rest : QByteArray), first = 91 ∨ first = 45 →
      Qt.fromJson (first :: rest) = none := by
    intro first rest hfirst
    refine if_neg fun h => ?_
    have h := Option.some.inj h
    rcases hfirst with rfl | rfl <;> exact absurd h (by decide)
  have hsome : (laptopWritten.files (str "/data/known-devices.json")).isSome = true := by
    decide +kernel
  obtain ⟨contents, hf⟩ := Option.isSome_iff_exists.1 hsome
  have hsealed : SecureStore.Sealed
      ((laptopWritten.files (str "/data/known-devices.json")).getD []) := by
    decide +kernel
  rw [hf] at hsealed
  exact ⟨contents, hf, ((marked_authentic (Crypto.listed_lawful _ rfl) bracedQt_roundTrips hother
    hreached hf).1 hsealed).1⟩

end

section

local instance admittedQt : Qt :=
  Ascii.qt [(Ascii.json Install.phonePaired.document, Install.phonePaired.document)] []

local instance admittedGcm : Gcm := Crypto.listed []

/-- A record in the clear is read although the app holds its key and never wrote it. -/
theorem unmarked_admitted : ∃ (w : Vault) (path : QString), Lib.ReachedBy system Unforged w ∧
    w.store.isEncrypting = true ∧ w.written = [] ∧ w.store.read (w.files path) ≠ [] ∧
    (KnownDevices.ofText (w.store.read (w.files path))).isKnown (str "cd34") = true := by
  have hok : Unforged empty (.replace (str "/data/known-devices.json")
      (some (Ascii.json Install.phonePaired.document))) := by
    intro c hc hs
    obtain rfl := Option.some.inj hc
    exact absurd hs (by decide +kernel)
  refine ⟨_, str "/data/known-devices.json", Lib.ReachedBy.next (VaultEvent.replace _ _)
    (.start empty_start) hok, rfl, rfl, ?_, ?_⟩
  · decide +kernel
  · decide +kernel

end

end Vault

end LocalSend
