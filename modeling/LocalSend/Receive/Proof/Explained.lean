import LocalSend.Receive.Proof.Steps

/-!
# The log explains itself

`Log.Explains pre e`: why the entry `e` may follow the log `pre`. Every entry of the log of every
run is explained by the entries before it (`reached_explained`); what a theorem says about writes,
prompts, sessions and pairings is read off.
-/

set_option autoImplicit false

namespace LocalSend

/-- Rows that agree on what they were asked for with agree on their names. -/
theorem TransferModel.name_of_declared {files : List FileEntry} {t : TransferModel}
    (h : t.declared = files.map FileEntry.declared) {f : FileEntry} (hf : f ∈ t.files) :
    ∃ f' ∈ files, f'.fileName = f.fileName := by
  have hmem : f.declared ∈ t.declared := List.mem_map_of_mem hf
  rw [h] at hmem
  obtain ⟨f', hf', heq⟩ := List.mem_map.1 hmem
  exact ⟨f', hf', congrArg (fun d => d.2.1) heq⟩

open World

variable [Qt]

/-- The upload request of the connection `i` was let in during the session that is open after
`pre`: with its id, a file id and the token issued for it, and from its address. -/
def Log.Authorised (pre : List Effect) (i : ConnId) (c : HttpConnection) : Prop :=
  ∃ s c₀ row, Log.session pre = some s ∧ Effect.opened i c₀ row ∈ Log.sinceIssued pre ∧
    c₀.query = c.query ∧ c₀.peerAddress = c.peerAddress ∧
    c.queryValue (str "sessionId") = s.id ∧
    s.tokens.lookup c.fileId = some (c.queryValue (str "token")) ∧ c.peerAddress = s.address

/-- The prepare-upload behind a prompt, a session or a pairing. -/
def Log.Vouched (pre : List Effect) (a : Asked) : Prop :=
  Log.asked pre = some a ∧ fingerprintVerified a.request a.peer.fingerprint = true

/-- Why an entry may follow `pre`. -/
def Log.Explains (g : Guard) (pre : List Effect) : Effect → Prop
  | .wrote i c _ _ => Log.Authorised pre i c
  | .prompted aliasName fileCount totalBytes => ∃ a, Log.Vouched pre a ∧
      aliasName = a.peer.aliasName ∧ fileCount = a.files.length ∧
      totalBytes = TransferModel.totalSize a.files
  | .issued _ address _ => ∃ a, Log.Vouched pre a ∧ a.request.peerAddress = address
  | .remembered fingerprint _ => ∃ a, Log.Vouched pre a ∧ a.peer.fingerprint = fingerprint
  | .begun _ c peer files => g.park c ∧ peer = requestPeer c ∧ files = parseEntries (requestFiles c)
  | .recorded r => ∃ a, Log.asked pre = some a ∧ r.peerAlias = a.peer.aliasName ∧
      ∀ name ∈ r.fileNames, ∃ f ∈ a.files, f.fileName = name
  | _ => True

/-- The request the transfer was begun for was taken as it came. -/
theorem Log.asked_request {g : Guard} {log : List Effect} {a : Asked}
    (h : Lib.Justified (Log.Explains g) log) (ha : Log.asked log = some a) : g.park a.request ∧
      a.peer = requestPeer a.request ∧ a.files = parseEntries (requestFiles a.request) := by
  obtain ⟨pre, post, hw⟩ := List.append_of_mem (Log.mem_of_asked ha)
  exact h pre (.begun a.conn a.request a.peer a.files) post hw

theorem parseEntry_size (files : QJsonObject) (id : QString) : 0 ≤ (parseEntry files id).size := by
  unfold parseEntry
  simp only
  split <;> omega

/-- No row was declared with a negative size. -/
theorem Log.asked_size {g : Guard} {log : List Effect} {a : Asked}
    (h : Lib.Justified (Log.Explains g) log) (ha : Log.asked log = some a) {f : FileEntry}
    (hf : f ∈ a.files) : 0 ≤ f.size := by
  rw [(Log.asked_request h ha).2.2] at hf
  obtain ⟨id, -, rfl⟩ := List.mem_map.1 hf
  exact parseEntry_size _ _

/-- The log of a world. -/
def World.Explained (g : Guard) (w : World) : Prop := Lib.Justified (Log.Explains g) w.log

namespace World

variable {g : Guard} {w v : World} {i : ConnId}

theorem Explained.before {pre post : List Effect} (h : w.Explained g) (hw : w.log = pre ++ post) :
    Lib.Justified (Log.Explains g) pre := by
  unfold Explained at h
  rw [hw] at h
  exact h.of_append

theorem Recalls.vouched {a : Asked} (h : w.Recalls a) : Log.Vouched w.log a := ⟨h.asked, h.verified⟩

theorem Recalls.size_nonneg {a : Asked} (ha : w.Recalls a) (he : w.Explained g) {row : Nat}
    (hrow : row < w.transfer.fileCount) : 0 ≤ (w.transfer.entry row).size := by
  have hlt : row < a.files.length := by
    rw [← ha.fileCount]
    exact hrow
  have hsize : (w.transfer.entry row).size = (a.files.getD row default).size :=
    congrArg (fun d => d.2.2.1) (ha.entry row)
  rw [hsize, List.getD_eq_getElem _ _ hlt]
  exact Log.asked_size he ha.asked (List.getElem_mem hlt)

/-- A connection that streams is authorised. -/
theorem Inv.authorised (h : w.Inv) {f : FileId} (hsink : (w.conns i).sink = some f)
    (hb : (w.conns i).InBody) : Log.Authorised w.log i (w.conns i) := by
  obtain ⟨rfl, u, hu⟩ := h.streaming i f hsink hb
  have hs := h.served f u hu
  obtain ⟨c₀, hopened, hquery, haddress⟩ := hs.opened
  refine ⟨⟨w.sessionId, w.sessionAddress, w.tokens⟩, c₀, u.row, ?_, hopened, hquery, haddress,
    hs.session, hs.token, hs.address⟩
  rw [h.session, if_neg hs.open_]

theorem Act.explained (ha : Act g w v) (h : w.Inv) (he : w.Explained g) : v.Explained g := by
  have wrote : ∀ {j f data}, (w.conns j).InBody → (w.conns j).sink = some f →
      Lib.Justified (Log.Explains g) (w.write j f data).2.log := by
    intro j f data hb hsink
    unfold World.write
    split
    · exact he
    · exact he.concat (h.authorised hsink hb)
  cases ha with
  | outside => exact he
  | aside => exact he
  | files => exact he
  | probe => exact he
  | conns => exact he
  | read => exact he
  | complete => exact he
  | reply => exact he
  | connect => exact he
  | transfer => exact he
  | wrote _ hb hs => exact wrote hb hs
  | short _ hb hs => exact wrote hb hs
  | park _ _ _ _ _ _ hg => exact he.concat ⟨hg, rfl, rfl⟩
  | prompt hp =>
    obtain ⟨a, ha⟩ := h.recalls (.inl hp)
    exact he.concat ⟨a, ha.vouched, by rw [ha.peer], ha.fileCount,
      congrArg (fun s => s.2.2) ha.shown⟩
  | @openSession i directory hp =>
    obtain ⟨id, d, t, tokens, heq, -⟩ := openSession_eq w i directory
    obtain ⟨a, ha⟩ := h.recalls (.inl (by rw [hp]; exact Option.some_ne_none i))
    rw [heq]
    exact .concat (.concat he (a := Effect.issued _ _ _) ⟨a, ha.vouched, (ha.pending i hp).2.symm⟩)
      trivial
  | release => exact he
  | @enter i row path =>
    obtain ⟨d, hd⟩ := entered_eq w i row path { w.conns i with
      sink := some i
      maxBodyBytes := (w.transfer.entry row).size }
    rw [hd]
    exact .concat (.concat he (a := Effect.opened _ _ _) trivial) trivial
  | mark => exact he.concat trivial
  | @drop i u c error hu =>
    obtain ⟨d, hd⟩ := dropUpload_eq i u error w
    rw [hd]
    exact he.concat trivial
  | @settle i u hu =>
    have hs := h.served i u hu
    obtain ⟨f, hf, hp, -⟩ := hs.handle
    obtain ⟨d, ⟨status, error, -, heq⟩ | ⟨path, content, -, -, -, -, heq⟩⟩ :=
      settleUpload_spec (w := { w with uploads := w.uploads.erase i }) i (hs.file.symm ▸ hf) hp
    · rw [heq]
      exact he.concat trivial
    · rw [heq]
      exact .concat (.concat he (a := Effect.stored _ _ _ _) trivial) trivial
  | remember hs =>
    unfold rememberPeer
    split
    · obtain ⟨a, ha⟩ := h.recalls (.inr hs)
      exact he.concat ⟨a, ha.vouched, by rw [ha.peer]⟩
    · exact he
  | record hs =>
    unfold writeHistory
    split
    · obtain ⟨a, ha⟩ := h.recalls (.inr hs)
      refine he.concat ⟨a, ha.asked, by rw [ha.peer]; rfl, fun name hname => ?_⟩
      obtain ⟨f, hf, rfl⟩ := List.mem_map.1 hname
      exact TransferModel.name_of_declared ha.declared (List.mem_of_mem_filter hf)
    · exact he
  | finish => exact .concat (.concat he (a := Effect.ended) trivial) trivial
  | posted => exact he.concat trivial

theorem Start.explained (h : w.Start) : w.Explained g := by
  unfold Explained
  rw [show _ = _ from h.log]
  exact .nil

theorem reached_explained (h : Lib.Reached system w) : w.Explained .all :=
  reached_keep (fun w e _ _ => permits_all w e) (fun _ => Start.explained) Act.explained h

end World

end LocalSend
