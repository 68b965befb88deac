import LocalSend.Receive.Proof.Accept
import LocalSend.Receive.Proof.Explained

/-!
# Where an upload of an accepted file goes

A row takes its id from inside its descriptor, and only without one the key of the descriptor, which
is unique. Every row of a session has an upload that is routed to it if and only if the ids of the
request are distinct and none is empty (`deliverable_iff`).
-/

set_option autoImplicit false

namespace LocalSend

/-- The ids the rows of a request get. -/
def descriptorIds (files : QJsonObject) : List QString :=
  files.keys.map fun key => ((files.value key).toObject.value (str "id")).toString key

namespace TransferModel

variable {t : TransferModel}

theorem getElem_ids {r : Nat} (h : r < (t.files.map FileEntry.id).length) :
    (t.files.map FileEntry.id)[r] = (t.entry r).id := by
  rw [List.length_map] at h
  unfold entry
  rw [List.getElem_map, List.getD_eq_getElem _ _ h]

theorem mem_ids {id : QString} :
    id ∈ t.files.map FileEntry.id ↔ ∃ r < t.fileCount, (t.entry r).id = id := by
  constructor
  · intro h
    obtain ⟨r, hr, rfl⟩ := List.getElem_of_mem h
    exact ⟨r, by rwa [List.length_map] at hr, (getElem_ids hr).symm⟩
  · rintro ⟨r, hr, rfl⟩
    have hlen : r < (t.files.map FileEntry.id).length := by rwa [List.length_map]
    rw [← getElem_ids hlen]
    exact List.getElem_mem hlen

theorem row_of_id (h : (t.files.map FileEntry.id).Nodup) {r s : Nat} (hr : r < t.fileCount)
    (hs : s < t.fileCount) (hid : (t.entry r).id = (t.entry s).id) : r = s := by
  have hlenr : r < (t.files.map FileEntry.id).length := by rwa [List.length_map]
  have hlens : s < (t.files.map FileEntry.id).length := by rwa [List.length_map]
  rw [← getElem_ids hlenr, ← getElem_ids hlens] at hid
  exact (h.getElem_inj_iff).1 hid

/-- Of rows with distinct ids each is found under its own. -/
theorem indexOfFile_entry (h : (t.files.map FileEntry.id).Nodup) {r : Nat} (hr : r < t.fileCount) :
    t.indexOfFile (t.entry r).id = some r := by
  cases hfind : t.indexOfFile (t.entry r).id with
  | some s =>
    obtain ⟨hs, hid⟩ := entry_of_indexOfFile hfind
    rw [row_of_id h hs hr hid]
  | none =>
    unfold indexOfFile at hfind
    rw [List.findIdx?_eq_none_iff] at hfind
    have hmem : t.entry r ∈ t.files := by
      unfold entry
      rw [List.getD_eq_getElem _ _ hr]
      exact List.getElem_mem hr
    simpa using hfind _ hmem

end TransferModel

namespace World

section
variable [Qt] {w : World} {a : Asked} {i : ConnId}

theorem map_id_parseEntries (files : QJsonObject) :
    (parseEntries files).map FileEntry.id = descriptorIds files := by
  unfold parseEntries descriptorIds
  rw [List.map_map]
  rfl

/-- The rows of the transfer are those of the request that waits for an answer. -/
structure Offered (w : World) (a : Asked) : Prop where
  pending : w.pending = some a.conn
  closed : w.sessionId = []
  asked : Log.asked w.log = some a
  rows : w.transfer.files.map FileEntry.id = descriptorIds (requestFiles a.request)

/-- A request that waits in some state was offered. -/
theorem reached_offered (h : Lib.Reached system w) (hp : w.pending ≠ none) :
    ∃ a, w.Offered a := by
  have hinv := reached_inv h
  obtain ⟨a, ha⟩ := hinv.recalls (.inl hp)
  obtain ⟨i, hi⟩ := Option.ne_none_iff_exists'.1 hp
  refine ⟨a, ?_, hinv.exclusive.resolve_left hp, ha.asked, ?_⟩
  · rw [hi, (ha.pending i hi).1]
  · have hids := congrArg (List.map Prod.fst) ha.declared
    rw [TransferModel.declared, List.map_map, List.map_map] at hids
    rw [← map_id_parseEntries, ← (Log.asked_request (reached_explained h) ha.asked).2.2]
    exact hids

/-- So is one that is parked. -/
theorem park_offered (hclosed : w.sessionId = []) (i : ConnId) : (w.park i).Offered
    ⟨i, w.conns i, requestPeer (w.conns i), parseEntries (requestFiles (w.conns i))⟩ where
  pending := rfl
  closed := hclosed
  asked := Log.asked_concat _ _
  rows := by
    rw [← map_id_parseEntries]
    exact congrArg (List.map FileEntry.id) (TransferModel.files_setState _ _ _)

/-- So is one that quick save accepts as soon as it is parked. -/
theorem handlePrepareUpload_offered (hclosed : w.sessionId = []) (i : ConnId) :
    (∃ (u : World) (a : Asked), u.Offered a ∧ a.request = w.conns i ∧
      w.handlePrepareUpload i = u.accept) ∨
    (∃ u status, w.handlePrepareUpload i = World.respond i status u) ∨
    ∃ u, w.handlePrepareUpload i = World.raisePrompt u := by
  have hprepares := handlePrepareUpload_prepares w i
  generalize w.handlePrepareUpload i = v at hprepares ⊢
  cases hprepares with
  | refused => exact .inr (.inl ⟨_, _, rfl⟩)
  | accepted limiter devices =>
    have hoffered := park_offered (w := { w with pinAttempts := limiter, devices := devices })
      hclosed i
    exact .inl ⟨_, _, hoffered, rfl, rfl⟩
  | prompted => exact .inr (.inr ⟨_, rfl⟩)

/-- Every row has an id and a token, in the response, with which an upload is routed to it. -/
structure Deliverable (v : World) : Prop where
  nonempty : ∀ r < v.transfer.fileCount, (v.transfer.entry r).id ≠ []
  distinct : (v.transfer.files.map FileEntry.id).Nodup
  tokens : ∀ r < v.transfer.fileCount,
    v.tokens.lookup (v.transfer.entry r).id = some (v.transfer.entry r).token
  routed : ∀ r < v.transfer.fileCount,
    v.transfer.indexOfFile (v.transfer.entry r).id = some r
  response : ∀ r < v.transfer.fileCount,
    (v.acceptResponse.value (str "files")).toObject.value (v.transfer.entry r).id =
      .string (v.transfer.entry r).token

theorem deliverable_iff (h : w.Offered a) (hopen : w.accept.sessionId ≠ []) :
    w.accept.Deliverable ↔
      [] ∉ descriptorIds (requestFiles a.request) ∧
        (descriptorIds (requestFiles a.request)).Nodup := by
  have hdir : ¬ w.Unwritable := by
    intro hdir
    exact hopen ((accept_unwritable h.pending hdir).1.trans h.closed)
  obtain ⟨-, -, -, ⟨v, hv, htokens, hfiles⟩, -⟩ := accept_writable h.pending hdir
  have hids : w.accept.transfer.files.map FileEntry.id = descriptorIds (requestFiles a.request) := by
    rw [← h.rows, hfiles]
    refine List.ext_getElem ?_ fun r hr hr' => ?_
    · rw [List.length_map, List.length_map]
      exact hv.count
    · rw [TransferModel.getElem_ids, TransferModel.getElem_ids]
      exact hv.id r
  rw [← hids]
  constructor
  · intro hd
    refine ⟨fun hmem => ?_, hd.distinct⟩
    obtain ⟨r, hr, hnil⟩ := TransferModel.mem_ids.1 hmem
    exact hd.nonempty r hr hnil
  · rintro ⟨hne, hnodup⟩
    have hlisted : ∀ r < w.accept.transfer.fileCount,
        w.accept.tokens.lookup (w.accept.transfer.entry r).id =
          some (w.accept.transfer.entry r).token := by
      have hshared : ∀ r < w.transfer.fileCount, ∀ s < w.transfer.fileCount,
          (w.transfer.entry r).id = (w.transfer.entry s).id →
            ({ w with drawn := w.drawn + 1 } : World).drawnFor r =
              ({ w with drawn := w.drawn + 1 } : World).drawnFor s := by
        intro r hr s hs hid
        rw [hids, ← h.rows] at hnodup
        rw [TransferModel.row_of_id hnodup hr hs hid]
      have hall := hv.listed_iff.2 hshared
      have hcount : w.accept.transfer.fileCount = w.transfer.fileCount :=
        (congrArg List.length hfiles).trans hv.count
      intro r hr
      have hentry : w.accept.transfer.entry r = v.transfer.entry r :=
        congrArg (fun l => l.getD r default) hfiles
      rw [htokens, hentry]
      exact hall r (hcount ▸ hr)
    exact ⟨fun r hr hnil => hne (TransferModel.mem_ids.2 ⟨r, hr, hnil⟩), hnodup, hlisted,
      fun r hr => TransferModel.indexOfFile_entry hnodup hr,
      fun r hr => (acceptResponse_files _ _ _).2 (hlisted r hr)⟩

end

section

def identified (id fileName : QString) : QJsonValue := .object [
  (str "fileName", .string fileName),
  (str "id", .string id),
  (str "size", .double 5)]

/-- Two files under different keys, with one id. -/
def namesakes : QJsonObject :=
  offer (str "laptop") (str "ab12") [
    (str "a", identified (str "x") (str "a.txt")),
    (str "b", identified (str "x") (str "b.txt"))]

/-- Two files under one name, with different ids. -/
def lookalikes : QJsonObject :=
  offer (str "laptop") (str "ab12") [
    (str "a", identified (str "x") (str "a.txt")),
    (str "b", identified (str "y") (str "a.txt"))]

local instance namesakeQt : Qt :=
  Ascii.qt [(Ascii.json lookalikes, lookalikes), (Ascii.json namesakes, namesakes)] []

def askedFor (files : QJsonObject) : World :=
  [Event.startListening,
    .connect (str "10.0.0.2") none,
    .readyRead 0 (post prepareTarget (Ascii.json files))].foldl step
    (fresh { AppSettings.trusting with quickSave := false } .obliging countingSource)

/-- The session has two rows and one token, and no upload reaches the second row. -/
theorem namesake_unreachable :
    let w := (askedFor namesakes).accept
    w.sessionId ≠ [] ∧ w.transfer.files.map (·.id) = [str "x", str "x"] ∧
      w.tokens.lookup (str "x") ≠ some (w.transfer.entry 0).token ∧
      w.transfer.indexOfFile (str "x") = some 0 := by
  decide +kernel

theorem lookalikes_routed : (askedFor lookalikes).accept.Deliverable ∧
    (askedFor lookalikes).accept.transfer.files.map (·.id) = [str "x", str "y"] := by
  have hreached : Lib.Reached system (askedFor lookalikes) :=
    .run_any _ (.start (fresh_start .obliging countingSource (by decide)))
  have hpending : (askedFor lookalikes).pending ≠ none := by decide +kernel
  have hopen : (askedFor lookalikes).accept.sessionId ≠ [] := by decide +kernel
  have hids : ((Log.asked (askedFor lookalikes).log).map fun a =>
      descriptorIds (requestFiles a.request)) = some [str "x", str "y"] := by
    decide +kernel
  obtain ⟨a, ha⟩ := reached_offered hreached hpending
  rw [ha.asked] at hids
  have hids : descriptorIds (requestFiles a.request) = [str "x", str "y"] := Option.some.inj hids
  refine ⟨(deliverable_iff ha hopen).2 ?_, by decide +kernel⟩
  rw [hids]
  exact ⟨by decide, by decide⟩

end

end World

end LocalSend
