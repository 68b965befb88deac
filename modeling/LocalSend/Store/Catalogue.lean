import LocalSend.Models.Devices
import LocalSend.Qt.Utf8

/-!
# The trust record as a document

How `KnownDevices` is written to a file and read back, and what can be done to it (`Edit`): the
setters save the record unless they return early.
-/

set_option autoImplicit false

namespace LocalSend

namespace KnownDevices

def Entry.document (e : Entry) : QJsonObject := [
  (str "alias", .string e.aliasName),
  (str "blocked", .bool e.blocked),
  (str "firstSeen", .double (doubleOf e.firstSeen)),
  (str "paired", .bool e.paired)]

def document (k : KnownDevices) : QJsonObject :=
  k.entries.entries.map fun e => (e.1, .object e.2.document)

section
variable [Qt]

/-- An entry without a flag is a pairing, unless it is a block. -/
def Entry.ofDocument (value : QJsonObject) : Entry :=
  let blocked := (value.value (str "blocked")).toBool false
  { aliasName := (value.value (str "alias")).toString []
    firstSeen := (qint64 (value.value (str "firstSeen")).toDouble).toNat
    paired := (value.value (str "paired")).toBool (!blocked)
    blocked := blocked }

def ofDocument (root : QJsonObject) : KnownDevices :=
  ⟨root.keys.foldl (fun entries fingerprint =>
    entries.insert (Qt.toUpper fingerprint)
      (Entry.ofDocument (root.value fingerprint).toObject)) ∅⟩

/-- What is not an object is no record. -/
def ofText (text : QByteArray) : KnownDevices :=
  match Qt.fromJson text with
  | some root => ofDocument root
  | none => ⟨∅⟩

def toText (k : KnownDevices) : QByteArray := Qt.toJson k.document

def isKnown (k : KnownDevices) (fingerprint : QString) : Bool :=
  fingerprint ≠ [] && (k.entryOf fingerprint).paired

def aliasFor (k : KnownDevices) (fingerprint : QString) : QString :=
  (k.entryOf fingerprint).aliasName

/-- An order in which the hash table can be iterated. -/
def Iteration (k : KnownDevices) : Type :=
  { order : List (Sigma fun _ : QString => Entry) // order.Perm k.entries.entries }

/-- The first pairing that is met under the name. -/
def expectedFingerprint (k : KnownDevices) (order : k.Iteration) (aliasName : QString) : QString :=
  if aliasName = [] then []
  else match order.val.find? fun e => e.2.paired && e.2.aliasName = aliasName with
    | some e => e.1
    | none => []

def conflicts (k : KnownDevices) (order : k.Iteration) (fingerprint aliasName : QString) : Bool :=
  if fingerprint = [] ∨ aliasName = [] then false
  else if k.isKnown fingerprint then false
  else
    let expected := k.expectedFingerprint order aliasName
    expected ≠ [] && !Crypto.equalsFold expected fingerprint

/-- One call of a setter. -/
inductive Edit
  | setBlocked (fingerprint aliasName : QString) (blocked : Bool)
  | remember (fingerprint aliasName : QString)
  | forget (fingerprint : QString)
  | forgetAll

namespace Edit

def apply (now : Nat) (k : KnownDevices) : Edit → KnownDevices
  | .setBlocked fingerprint aliasName blocked => k.setBlocked now fingerprint aliasName blocked
  | .remember fingerprint aliasName => k.remember now fingerprint aliasName
  | .forget fingerprint => k.forget now fingerprint
  | .forgetAll => k.forgetAll now

/-- The setter gets to `save()`. -/
def saves (k : KnownDevices) : Edit → Bool
  | .setBlocked fingerprint _ blocked => fingerprint ≠ [] &&
    match k.entries.lookup (Qt.toUpper fingerprint) with
    | none => blocked
    | some e => e.blocked != blocked
  | .remember fingerprint aliasName => fingerprint ≠ [] &&
    match k.entries.lookup (Qt.toUpper fingerprint) with
    | none => true
    | some e => !(e.paired && e.aliasName = aliasName)
  | .forget fingerprint => (k.entries.lookup (Qt.toUpper fingerprint)).isSome
  | .forgetAll => !k.entries.entries.all fun e => e.2.blocked && !e.2.paired

/-- What the call asks of the block of `key`. -/
def block? (key : QString) : Edit → Option Bool
  | .setBlocked fingerprint _ blocked =>
    if fingerprint ≠ [] ∧ Qt.toUpper fingerprint = key then some blocked else none
  | _ => none

/-- What the call asks of the pairing with `key`. -/
def pair? (key : QString) : Edit → Option Bool
  | .remember fingerprint _ =>
    if fingerprint ≠ [] ∧ Qt.toUpper fingerprint = key then some true else none
  | .forget fingerprint => if Qt.toUpper fingerprint = key then some false else none
  | .forgetAll => some false
  | .setBlocked _ _ _ => none

/-- The strings the call would put into the record can be spelled. -/
def WellFormed : Edit → Prop
  | .setBlocked fingerprint aliasName _ | .remember fingerprint aliasName =>
    (Qt.toUpper fingerprint).WellFormed ∧ aliasName.WellFormed
  | _ => True

end Edit

end

/-! ## Reading it back -/

theorem lookup_document (k : KnownDevices) (key : QString) :
    k.document.lookup key = (k.entries.lookup key).map fun e => .object e.document := by
  unfold document AList.lookup
  induction k.entries.entries with
  | nil => rfl
  | cons e entries ih =>
    obtain ⟨key', e⟩ := e
    rw [List.map_cons, List.lookup_cons]
    by_cases hk : key = key'
    · subst hk
      simp
    · have hb : (key == key') = false := by simpa using hk
      rw [hb, List.dlookup_cons_ne _ _ hk]
      exact ih

theorem mem_keys (o : QJsonObject) (key : QString) : key ∈ o.keys ↔ o.lookup key ≠ none := by
  unfold QJsonObject.keys
  rw [List.mem_eraseDups, List.mem_map, Ne, List.lookup_eq_none_iff]
  constructor
  · rintro ⟨p, hp, rfl⟩ h
    exact absurd (h p hp) (by simp)
  · intro h
    obtain ⟨p, hp⟩ := not_forall.1 h
    obtain ⟨hp, hne⟩ := Classical.not_imp.1 hp
    exact ⟨p, hp, by simpa using Eq.symm (by simpa using hne)⟩

variable [Qt]

theorem lookup_foldl_insert (f : QString → Entry) (key : QString) :
    ∀ (keys : List QString) (m : AList fun _ : QString => Entry),
      (∀ k ∈ keys, Qt.toUpper k = k) →
      (keys.foldl (fun m k => m.insert (Qt.toUpper k) (f k)) m).lookup key =
        if key ∈ keys then some (f key) else m.lookup key
  | [], m, _ => by simp
  | k :: keys, m, h => by
    rw [List.foldl_cons, lookup_foldl_insert f key keys _ fun x hx => h x (.tail _ hx),
      h k (.head _)]
    by_cases hk : key = k
    · subst hk
      simp
    · simp [hk, AList.lookup_insert_ne]

/-- A record whose strings can be spelled, under the keys it is looked up by. -/
def Spelled (k : KnownDevices) : Prop := ∀ key e, k.entries.lookup key = some e →
  key.WellFormed ∧ e.aliasName.WellFormed ∧ Qt.toUpper key = key

/-- What is known of the JSON format: the text of an object starts with a brace, nothing is no
object, and a record whose strings can be spelled is read back field by field. -/
structure RoundTrips : Prop where
  brace : ∀ o, ∃ rest, Qt.toJson o = 123 :: rest
  nothing : Qt.fromJson [] = none
  fields : ∀ k : KnownDevices, k.Spelled →
    ∃ o, Qt.fromJson k.toText = some o ∧ ∀ key, o.lookup key = k.document.lookup key

/-- What a document keeps of an entry. -/
def Entry.kept (e : Entry) : QString × Bool × Bool := (e.aliasName, e.paired, e.blocked)

/-- Two records that say the same, but for the dates. -/
def Same (k k' : KnownDevices) : Prop :=
  ∀ key, (k'.entries.lookup key).map Entry.kept = (k.entries.lookup key).map Entry.kept

theorem kept_ofDocument (e : Entry) : (Entry.ofDocument e.document).kept = e.kept := rfl

/-- A record read back says the same. -/
theorem RoundTrips.same (h : RoundTrips) {k : KnownDevices} (hk : k.Spelled) :
    k.Same (ofText k.toText) := by
  obtain ⟨o, ho, hlookup⟩ := h.fields k hk
  intro key
  have hupper : ∀ key ∈ o.keys, Qt.toUpper key = key := by
    intro key hmem
    rw [mem_keys, hlookup, lookup_document, Ne, Option.map_eq_none_iff] at hmem
    obtain ⟨e, he⟩ := Option.ne_none_iff_exists'.1 hmem
    exact (hk key e he).2.2
  unfold ofText
  rw [ho]
  simp only [ofDocument]
  rw [lookup_foldl_insert (fun f => Entry.ofDocument (o.value f).toObject) key _ _ hupper]
  cases he : k.entries.lookup key with
  | none =>
    have hmem : key ∉ o.keys := by simp [mem_keys, hlookup, lookup_document, he]
    rw [if_neg hmem]
    rfl
  | some e =>
    have hmem : key ∈ o.keys := by simp [mem_keys, hlookup, lookup_document, he]
    have hvalue : o.value key = .object e.document := by
      simp [QJsonObject.value, hlookup, lookup_document, he]
    rw [if_pos hmem, hvalue]
    exact congrArg some (kept_ofDocument e)

/-! ## What a setter does -/

/-- What is on record under a key. -/
def on (k : KnownDevices) (key : QString) : Entry := (k.entries.lookup key).getD {}

omit [Qt] in
theorem on_insert (k : KnownDevices) (key key' : QString) (e : Entry) :
    on ⟨k.entries.insert key e⟩ key' = if key' = key then e else k.on key' := by
  unfold on
  by_cases h : key' = key
  · subst h
    simp
  · simp [h, AList.lookup_insert_ne h]

omit [Qt] in
theorem on_erase (k : KnownDevices) (key key' : QString) :
    on ⟨k.entries.erase key⟩ key' = if key' = key then {} else k.on key' := by
  unfold on
  by_cases h : key' = key
  · subst h
    simp
  · simp [h, AList.lookup_erase_ne h]

omit [Qt] in
theorem Same.on {k k' : KnownDevices} (h : k.Same k') (key : QString) :
    (k'.on key).kept = (k.on key).kept := by
  have hk := h key
  unfold KnownDevices.on
  cases he : k.entries.lookup key <;> cases he' : k'.entries.lookup key <;>
    simp_all [Entry.kept]

omit [Qt] in
/-- The blocks that `forgetAll` keeps. -/
theorem lookup_blocks (now : Nat) (key : QString) :
    ∀ l : List (Sigma fun _ : QString => Entry), l.NodupKeys →
      (l.foldr (fun e kept =>
        if e.2.blocked then kept.insert e.1 { firstSeen := now, blocked := true } else kept)
        (∅ : AList fun _ : QString => Entry)).lookup key =
        if ((l.dlookup key).getD {}).blocked then some { firstSeen := now, blocked := true } else none
  | [], _ => by simp
  | e :: l, h => by
    obtain ⟨key', e⟩ := e
    rw [List.nodupKeys_cons] at h
    have ih := lookup_blocks now key l h.2
    rw [List.foldr_cons]
    by_cases hk : key = key'
    · subst hk
      rw [List.dlookup_cons_eq]
      cases hb : e.blocked with
      | true => simp [hb]
      | false =>
        have hnone : l.dlookup key = none := List.dlookup_eq_none.2 h.1
        rw [hnone] at ih
        simpa [hb] using ih
    · rw [List.dlookup_cons_ne _ _ hk]
      cases e.blocked with
      | true => simpa [AList.lookup_insert_ne hk] using ih
      | false => simpa using ih

/-- A setter does what it is asked to the flags of a key. -/
theorem on_apply (now : Nat) (k : KnownDevices) (e : Edit) (key : QString) :
    ((e.apply now k).on key).blocked = (e.block? key).getD (k.on key).blocked ∧
    ((e.apply now k).on key).paired = (e.pair? key).getD (k.on key).paired := by
  cases e with
  | setBlocked fingerprint aliasName blocked =>
    simp only [Edit.apply, Edit.block?, Edit.pair?, setBlocked, Option.getD_none]
    split
    · rename_i hf
      simp [hf]
    · rename_i hf
      cases he : k.entries.lookup (Qt.toUpper fingerprint) with
      | none =>
        have hon : k.on (Qt.toUpper fingerprint) = {} := by simp [on, he]
        cases blocked with
        | true => by_cases hk : key = Qt.toUpper fingerprint <;>
            simp [on_insert, hf, hk, hon, eq_comm]
        | false => by_cases hk : key = Qt.toUpper fingerprint <;> simp [hf, hk, hon, eq_comm]
      | some entry =>
        have hon : k.on (Qt.toUpper fingerprint) = entry := by simp [on, he]
        simp only
        split
        · rename_i hb
          by_cases hk : key = Qt.toUpper fingerprint
          · simp [hf, hk, hon, hb]
          · simp [hf, Ne.symm hk]
        · by_cases hk : key = Qt.toUpper fingerprint <;>
            simp [on_insert, hf, hk, hon, eq_comm]
  | remember fingerprint aliasName =>
    simp only [Edit.apply, Edit.block?, Edit.pair?, remember, Option.getD_none]
    split
    · rename_i hf
      simp [hf]
    · rename_i hf
      cases he : k.entries.lookup (Qt.toUpper fingerprint) with
      | none =>
        have hon : k.on (Qt.toUpper fingerprint) = {} := by simp [on, he]
        by_cases hk : key = Qt.toUpper fingerprint <;> simp [on_insert, hf, hk, hon, eq_comm]
      | some entry =>
        have hon : k.on (Qt.toUpper fingerprint) = entry := by simp [on, he]
        simp only
        split
        · rename_i hp
          by_cases hk : key = Qt.toUpper fingerprint
          · simp [hf, hk, hon, hp]
          · simp [hf, Ne.symm hk]
        · by_cases hk : key = Qt.toUpper fingerprint <;>
            simp [on_insert, hf, hk, hon, eq_comm]
  | forget fingerprint =>
    simp only [Edit.apply, Edit.block?, Edit.pair?, forget, Option.getD_none]
    cases he : k.entries.lookup (Qt.toUpper fingerprint) with
    | none =>
      have hon : k.on (Qt.toUpper fingerprint) = {} := by simp [on, he]
      by_cases hk : key = Qt.toUpper fingerprint <;> simp [hk, hon, eq_comm]
    | some entry =>
      have hon : k.on (Qt.toUpper fingerprint) = entry := by simp [on, he]
      simp only
      split
      · rename_i hb
        by_cases hk : key = Qt.toUpper fingerprint <;> simp [on_insert, hk, hon, hb, eq_comm]
      · rename_i hb
        by_cases hk : key = Qt.toUpper fingerprint <;> simp [on_erase, hk, hon, hb, eq_comm]
  | forgetAll =>
    simp only [Edit.apply, Edit.block?, Edit.pair?, forgetAll, Option.getD_none, Option.getD_some]
    split
    · rename_i hall
      refine ⟨rfl, ?_⟩
      unfold on
      cases he : k.entries.lookup key with
      | none => rfl
      | some entry =>
        have hmem := List.of_mem_dlookup (Option.mem_def.2 he)
        have hflags : entry.blocked = true ∧ entry.paired = false := by
          simpa using List.all_eq_true.1 hall _ hmem
        exact hflags.2
    · have hl := lookup_blocks now key k.entries.entries k.entries.nodupKeys
      rw [show (k.entries.entries.dlookup key).getD {} = k.on key from rfl] at hl
      have hon := congrArg (fun e : Option Entry => e.getD {}) hl
      cases hb : (k.on key).blocked with
      | true =>
        rw [hb, if_pos rfl] at hon
        exact ⟨congrArg Entry.blocked hon, congrArg Entry.paired hon⟩
      | false =>
        rw [hb, if_neg Bool.false_ne_true] at hon
        exact ⟨congrArg Entry.blocked hon, congrArg Entry.paired hon⟩

theorem Spelled.insert {k : KnownDevices} (h : k.Spelled) {key : QString} {e : Entry}
    (hkey : key.WellFormed) (halias : e.aliasName.WellFormed) (hupper : Qt.toUpper key = key) :
    Spelled ⟨k.entries.insert key e⟩ := by
  intro key' e' he
  by_cases hk : key' = key
  · subst hk
    rw [AList.lookup_insert] at he
    obtain rfl := Option.some.inj he
    exact ⟨hkey, halias, hupper⟩
  · rw [AList.lookup_insert_ne hk] at he
    exact h key' e' he

theorem Spelled.same {k k' : KnownDevices} (h : k.Spelled) (hs : k.Same k') : k'.Spelled := by
  intro key e he
  have hk := hs key
  rw [he, Option.map_some] at hk
  obtain ⟨e', he', hkept⟩ := Option.map_eq_some_iff.1 hk.symm
  obtain ⟨h1, h2, h3⟩ := h key e' he'
  have halias : e'.aliasName = e.aliasName := congrArg Prod.fst hkept
  exact ⟨h1, halias ▸ h2, h3⟩

/-- What can be spelled stays so when the names put in can be. -/
theorem Spelled.apply {k : KnownDevices} (h : k.Spelled) (now : Nat) {e : Edit}
    (he : e.WellFormed) (hupper : ∀ s, Qt.toUpper (Qt.toUpper s) = Qt.toUpper s) :
    (e.apply now k).Spelled := by
  cases e with
  | setBlocked fingerprint aliasName blocked =>
    simp only [Edit.apply, setBlocked]
    split
    · exact h
    · cases hl : k.entries.lookup (Qt.toUpper fingerprint) with
      | none =>
        cases blocked with
        | true => exact h.insert he.1 he.2 (hupper _)
        | false => exact h
      | some entry =>
        simp only
        split
        · exact h
        · refine h.insert he.1 ?_ (hupper _)
          simp only
          split
          · exact (h _ _ hl).2.1
          · exact he.2
  | remember fingerprint aliasName =>
    simp only [Edit.apply, remember]
    split
    · exact h
    · cases hl : k.entries.lookup (Qt.toUpper fingerprint) with
      | none => exact h.insert he.1 he.2 (hupper _)
      | some entry =>
        simp only
        split
        · exact h
        · exact h.insert he.1 he.2 (hupper _)
  | forget fingerprint =>
    simp only [Edit.apply, forget]
    cases hl : k.entries.lookup (Qt.toUpper fingerprint) with
    | none => exact h
    | some entry =>
      simp only
      split
      · exact h.insert (h _ _ hl).1 rfl (hupper _)
      · intro key e hk
        by_cases hne : key = Qt.toUpper fingerprint
        · rw [hne, AList.lookup_erase] at hk
          cases hk
        · rw [AList.lookup_erase_ne hne] at hk
          exact h key e hk
  | forgetAll =>
    simp only [Edit.apply, forgetAll]
    split
    · exact h
    · intro key e hk
      simp only [AList.lookup] at hk
      have hkept := lookup_blocks now key k.entries.entries k.entries.nodupKeys
      rw [AList.lookup] at hkept
      rw [hkept] at hk
      split at hk
      · rename_i hb
        obtain rfl := Option.some.inj hk
        cases hl : k.entries.entries.dlookup key with
        | none =>
          rw [hl] at hb
          cases hb
        | some entry => exact ⟨(h key entry hl).1, rfl, (h key entry hl).2.2⟩
      · cases hk

theorem apply_of_not_saves {now : Nat} {k : KnownDevices} {e : Edit} (h : e.saves k = false) :
    e.apply now k = k := by
  cases e with
  | setBlocked fingerprint aliasName blocked =>
    simp only [Edit.saves, Edit.apply, setBlocked] at h ⊢
    split
    · rfl
    · rename_i hf
      cases he : k.entries.lookup (Qt.toUpper fingerprint) <;> simp_all
  | remember fingerprint aliasName =>
    simp only [Edit.saves, Edit.apply, remember] at h ⊢
    split
    · rfl
    · cases he : k.entries.lookup (Qt.toUpper fingerprint) <;> simp_all
  | forget fingerprint =>
    simp only [Edit.saves, Edit.apply, forget] at h ⊢
    cases he : k.entries.lookup (Qt.toUpper fingerprint) <;> simp_all
  | forgetAll =>
    simp only [Edit.saves, Edit.apply, forgetAll, Bool.not_eq_false'] at h ⊢
    rw [if_pos h]

end KnownDevices

end LocalSend
