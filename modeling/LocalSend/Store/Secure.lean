import LocalSend.Core.Crypto

/-!
# The app's own files

`Crypto::encrypt` and `SecureStore`: a file is sealed with the storage key when the keystore gave
one, and written in the clear when it did not; a sealed file starts with `Magic`. AES-256-GCM is
OpenSSL's (`Gcm`).
-/

set_option autoImplicit false

namespace LocalSend

/-- AES-256-GCM of a key and a nonce. What `encrypt` gives is the body and, at its end, the tag. -/
class Gcm where
  encrypt : QByteArray → QByteArray → QByteArray → Option QByteArray
  decrypt : QByteArray → QByteArray → QByteArray → QByteArray → Option QByteArray

namespace Crypto

def KeyBytes : Nat := 32
def NonceBytes : Nat := 12
def TagBytes : Nat := 16

variable [Gcm]

/-- Empty when anything fails; the nonce is empty when the random source did. -/
def encrypt (plaintext key nonce : QByteArray) : QByteArray :=
  if key.length ≠ KeyBytes ∨ nonce = [] then []
  else match Gcm.encrypt key nonce plaintext with
    | some body => nonce ++ body
    | none => []

def decrypt (blob key : QByteArray) : QByteArray :=
  if key.length ≠ KeyBytes ∨ blob.length < NonceBytes + TagBytes then []
  else
    let body := blob.drop NonceBytes
    let bodySize := blob.length - NonceBytes - TagBytes
    (Gcm.decrypt key (blob.take NonceBytes) (body.take bodySize) (body.drop bodySize)).getD []

/-- What was sealed opens again. -/
def Lawful : Prop :=
  ∀ key nonce plaintext sealed, Gcm.encrypt key nonce plaintext = some sealed →
    ∃ body tag, sealed = body ++ tag ∧ tag.length = TagBytes ∧
      Gcm.decrypt key nonce body tag = some plaintext

theorem decrypt_encrypt (h : Lawful) {plaintext key nonce : QByteArray}
    (hn : nonce = [] ∨ nonce.length = NonceBytes) (he : encrypt plaintext key nonce ≠ []) :
    decrypt (encrypt plaintext key nonce) key = plaintext := by
  unfold encrypt at he ⊢
  split
  · rename_i hbad
    rw [if_pos hbad] at he
    exact absurd rfl he
  · rename_i hgood
    rw [if_neg hgood] at he
    obtain ⟨hkey, hne⟩ := not_or.1 hgood
    replace hn := hn.resolve_left hne
    cases hs : Gcm.encrypt key nonce plaintext with
    | none =>
      rw [hs] at he
      exact absurd rfl he
    | some sealed =>
      obtain ⟨body, tag, rfl, ht, hu⟩ := h key nonce plaintext sealed hs
      have hlen : (nonce ++ (body ++ tag)).length - NonceBytes - TagBytes = body.length := by
        simp only [List.length_append]
        omega
      have hlong : ¬ (key.length ≠ KeyBytes ∨
          (nonce ++ (body ++ tag)).length < NonceBytes + TagBytes) := by
        simp only [List.length_append]
        omega
      simp only [decrypt, if_neg hlong, hlen, List.take_left' hn, List.drop_left' hn,
        List.take_left, List.drop_left, hu]
      rfl

/-- One run of the cipher. -/
structure Sealing where
  key : QByteArray
  nonce : QByteArray
  plaintext : QByteArray
  body : QByteArray
  tag : QByteArray

omit [Gcm] in
/-- The cipher on the inputs that are listed. -/
@[reducible] def listed (runs : List Sealing) : Gcm where
  encrypt key nonce plaintext := (runs.find? fun r =>
    r.key = key && r.nonce = nonce && r.plaintext = plaintext).map fun r => r.body ++ r.tag
  decrypt key nonce body tag := (runs.find? fun r =>
    r.key = key && r.nonce = nonce && r.body = body && r.tag = tag).map (·.plaintext)

omit [Gcm] in
theorem listed_lawful (r : Sealing) (ht : r.tag.length = TagBytes) : @Lawful (listed [r]) := by
  intro key nonce plaintext sealed hs
  obtain ⟨r', hr', rfl⟩ := Option.map_eq_some_iff.1 hs
  have hmem := List.mem_of_find?_eq_some hr'
  have hrun := List.find?_some hr'
  obtain rfl := List.mem_singleton.1 hmem
  simp only [Bool.and_eq_true, decide_eq_true_eq] at hrun
  obtain ⟨⟨rfl, rfl⟩, rfl⟩ := hrun
  refine ⟨r'.body, r'.tag, rfl, ht, ?_⟩
  change Option.map _ (List.find? _ [r']) = _
  simp

end Crypto

abbrev Files := QString → Option QByteArray

/-- The process-wide store; the key is empty as long as the keystore gave none. -/
structure SecureStore where
  key : QByteArray

namespace SecureStore

def Magic : QByteArray := ascii "LSENC1"

def isEncrypting (s : SecureStore) : Bool := s.key.length = Crypto.KeyBytes

/-- The file was written with a key. -/
def Sealed (contents : QByteArray) : Prop := Magic.isPrefixOf contents = true

instance (contents : QByteArray) : Decidable (Sealed contents) :=
  inferInstanceAs (Decidable (_ = true))

variable [Gcm]

/-- A file that cannot be opened reads as empty, like one there is no key for. -/
def read (s : SecureStore) (file : Option QByteArray) : QByteArray :=
  match file with
  | none => []
  | some contents =>
    if ¬ Sealed contents then contents
    else if ¬ s.isEncrypting then []
    else Crypto.decrypt (contents.drop Magic.length) s.key

/-- What is written for `data`, if it can be sealed. -/
def payload (s : SecureStore) (nonce data : QByteArray) : Option QByteArray :=
  if s.isEncrypting then
    let sealed := Crypto.encrypt data s.key nonce
    if sealed = [] then none else some (Magic ++ sealed)
  else some data

/-- Through a temporary: the file is the old one or, when that was committed, the new one. -/
def write (s : SecureStore) (files : Files) (commits : Bool) (path : QString)
    (nonce data : QByteArray) : Bool × Files :=
  match s.payload nonce data with
  | none => (false, files)
  | some payload =>
    if commits then (true, Function.update files path (some payload)) else (false, files)

theorem write_of_ok {s : SecureStore} {files : Files} {commits : Bool} {path : QString}
    {nonce data : QByteArray} (h : (s.write files commits path nonce data).1 = true) :
    ∃ payload, s.payload nonce data = some payload ∧
      s.write files commits path nonce data =
        (true, Function.update files path (some payload)) := by
  unfold write at h ⊢
  cases hp : s.payload nonce data with
  | none => simp [hp] at h
  | some payload =>
    cases commits with
    | false => simp [hp] at h
    | true => exact ⟨payload, rfl, rfl⟩

/-- A launch reads what an earlier one wrote, if it has the key it was written with. -/
theorem read_payload (hg : Crypto.Lawful) {s s' : SecureStore} {nonce data payload : QByteArray}
    (hn : nonce = [] ∨ nonce.length = Crypto.NonceBytes) (hd : ¬ Sealed data)
    (hp : s.payload nonce data = some payload) (hkey : s.isEncrypting → s'.key = s.key) :
    s'.read (some payload) = data := by
  unfold SecureStore.payload at hp
  split at hp
  · rename_i henc
    extract_lets sealed at hp
    split at hp
    · cases hp
    · rename_i hne
      obtain rfl := Option.some.inj hp
      have hs : Sealed (Magic ++ sealed) := List.isPrefixOf_iff_prefix.2 (List.prefix_append _ _)
      have henc' : s'.isEncrypting = true := by
        unfold isEncrypting
        rw [hkey henc]
        exact henc
      simp only [read, hs, henc', not_true_eq_false, if_false, List.drop_left, hkey henc]
      exact Crypto.decrypt_encrypt hg hn hne
  · obtain rfl := Option.some.inj hp
    simp [read, hd]

end SecureStore

end LocalSend
