import LocalSend.Receive.Log
import LocalSend.Receive.Service

/-!
# What each operation leaves alone

One lemma for each operation on files, uploads and rows: the world it leaves is the world it met
with these fields set. A file operation changes the disk, and which call did what to it is only
said where a theorem needs it (`settleUpload_spec`).
-/

set_option autoImplicit false

namespace LocalSend

namespace World

/-! ## Files -/

theorem mkpath_eq (path : QString) (w : World) :
    ∃ ok d, w.mkpath path = (ok, { w with disk := d }) := by
  unfold mkpath
  split
  · exact ⟨_, _, rfl⟩
  · exact ⟨_, w.disk, rfl⟩

theorem openFile_eq (path : QString) (w : World) :
    ∃ ok d, w.openFile path = (ok, { w with disk := d }) := by
  unfold openFile
  split
  · exact ⟨_, _, rfl⟩
  · exact ⟨_, w.disk, rfl⟩

theorem removeFile_eq (path : QString) (w : World) :
    ∃ d, w.removeFile path = { w with disk := d } := by
  unfold removeFile
  split
  · exact ⟨_, rfl⟩
  · exact ⟨w.disk, rfl⟩

/-- A file that was renamed lies under its new name. -/
theorem renameFile_eq (path target : QString) (w : World) :
    ∃ ok d, w.renameFile path target = (ok, { w with disk := d }) ∧
      d (if ok then target else path) = w.disk path := by
  unfold renameFile
  split
  · rename_i node hnode
    split
    · refine ⟨true, _, rfl, ?_⟩
      rw [if_pos rfl, Function.update_self, hnode]
    · exact ⟨false, w.disk, rfl, by simp⟩
  · exact ⟨false, w.disk, rfl, by simp⟩

theorem closeFile_eq (f : FileId) (w : World) :
    ∃ d, w.closeFile f = { w with disk := d, handles := Function.update w.handles f none } ∧
      ∀ h, w.handles f = some h → d h.path = some (.file (h.written.take (w.env.kept h.path))) := by
  unfold closeFile
  split
  · rename_i hf
    refine ⟨w.disk, ?_, by simp [hf]⟩
    rw [← hf, Function.update_eq_self]
  · rename_i h hf
    refine ⟨_, rfl, ?_⟩
    rintro h' hh'
    obtain rfl := Option.some.inj (hf.symm.trans hh')
    rw [Function.update_self]

theorem write_eq {w : World} {f : FileId} {h : HashingFile} (hf : w.handles f = some h) (i : ConnId)
    (data : QByteArray) : w.write i f data =
      ((data.take (w.env.writable h.path)).length, { w with
        handles := Function.update w.handles f
          (some { h with written := h.written ++ data.take (w.env.writable h.path) })
        log := w.log ++ [.wrote i (w.conns i) h.path (data.take (w.env.writable h.path))] }) := by
  unfold write
  rw [hf]

/-- A write that took everything appended everything. -/
theorem take_of_full {α : Type} {l : List α} {n : Nat} (h : (l.take n).length = l.length) :
    l.take n = l := List.take_of_length_le (by rw [List.length_take] at h; omega)

@[simp] theorem conns_write (i : ConnId) (f : FileId) (data : QByteArray) (w : World) :
    (w.write i f data).2.conns = w.conns := by
  unfold write
  split <;> rfl

@[simp] theorem nextConn_write (i : ConnId) (f : FileId) (data : QByteArray) (w : World) :
    (w.write i f data).2.nextConn = w.nextConn := by
  unfold write
  split <;> rfl

/-! ## Uploads -/

theorem closeUpload_none {w : World} {i : ConnId} (h : w.uploads.lookup i = none) (keep : Bool) :
    w.closeUpload i keep = w := by
  unfold closeUpload
  rw [h]

/-- The upload is taken off the table and its part file removed; the row has failed. -/
def dropUpload (i : ConnId) (u : Upload) (error : QString) (w : World) : World :=
  ((closeFile u.file { w with uploads := w.uploads.erase i }).removeFile u.partPath).setFileStatus
    u.row .failed error

theorem dropUpload_eq (i : ConnId) (u : Upload) (error : QString) (w : World) :
    ∃ d, w.dropUpload i u error = { w with
      uploads := w.uploads.erase i
      disk := d
      handles := Function.update w.handles u.file none
      transfer := w.transfer.setFileStatus u.row .failed error
      log := w.log ++ [Effect.fileStatus u.row .failed] } := by
  unfold dropUpload
  obtain ⟨d, h, -⟩ := closeFile_eq u.file { w with uploads := w.uploads.erase i }
  obtain ⟨d', h'⟩ := removeFile_eq u.partPath
    (closeFile u.file { w with uploads := w.uploads.erase i })
  rw [h', h]
  exact ⟨d', rfl⟩

theorem prepareDirectory_eq (w : World) :
    ∃ path d, w.prepareDirectory = (path, { w with disk := d }) := by
  unfold prepareDirectory
  extract_lets path
  obtain ⟨ok, d, h⟩ := mkpath_eq path w
  rw [h]
  cases ok
  · exact ⟨_, d, rfl⟩
  · simp only
    obtain ⟨ok', d', h'⟩ := openFile_eq (path ++ str "/.localsend-write-test") { w with disk := d }
    rw [h']
    cases ok'
    · exact ⟨_, d', rfl⟩
    · simp only
      obtain ⟨d'', h''⟩ := removeFile_eq (path ++ str "/.localsend-write-test")
        { w with disk := d' }
      rw [h'']
      exact ⟨_, d'', rfl⟩

/-- A reserved name lies in the folder, and neither it nor its part file is taken. -/
theorem reserveFilePath_spec {w : World} {directory fileName path : QString}
    (h : w.reserveFilePath directory fileName = path) (hne : path ≠ []) :
    w.isFree path = true ∧ directory ++ str "/" <+: path := by
  unfold reserveFilePath at h
  extract_lets clean candidate bare base suffix numbered at h
  split at h
  · rename_i hfree
    subst h
    exact ⟨hfree, List.prefix_append _ _⟩
  · cases hfind : ((List.range 998).map fun k => numbered (k + 2)).find? w.isFree with
    | none =>
      rw [hfind] at h
      exact absurd h.symm hne
    | some candidate =>
      rw [hfind] at h
      obtain rfl : candidate = path := h
      refine ⟨List.find?_some hfind, ?_⟩
      obtain ⟨k, -, rfl⟩ := List.mem_map.1 (List.mem_of_find?_eq_some hfind)
      simp only [numbered, List.append_assoc]
      rw [← List.append_assoc]
      exact List.prefix_append _ _

/-- All of the upload's file has arrived, and with the digest its row declares. -/
def Arrived [Qt] (w : World) (u : Upload) : Prop :=
  (w.transfer.entry u.row).size ≤ ((w.closeFile u.file).fileSize u.partPath : Int) ∧
  ∀ h, w.handles u.file = some h → digestMatches true (w.transfer.entry u.row).sha256
    (QString.fromLatin1 (QByteArray.toHex (Qt.sha256 h.written))) = true

theorem arrived_uploads [Qt] {w : World} {u : Upload} (uploads : AList fun _ : ConnId => Upload) :
    ({ w with uploads := uploads } : World).Arrived u ↔ w.Arrived u := by
  unfold Arrived closeFile
  cases w.handles u.file <;> exact .rfl

/-- What becomes of an upload whose body is in: its row has failed, or it has arrived, and what is
left of the bytes written is stored as the row's file. -/
theorem settleUpload_spec [Qt] {w : World} {u : Upload} {h : HashingFile} (i : ConnId)
    (hf : w.handles u.file = some h) (hp : h.path = u.partPath) : ∃ d,
    (∃ status error, status / 100 ≠ 2 ∧ settleUpload i u w = (status, { w with
      disk := d
      handles := Function.update w.handles u.file none
      transfer := w.transfer.setFileStatus u.row .failed error
      log := w.log ++ [Effect.fileStatus u.row .failed] })) ∨
    (∃ path content, content <+: h.written ∧ (w.transfer.entry u.row).size ≤ content.length ∧
      w.Arrived u ∧ d path = some (.file content) ∧ settleUpload i u w = (200, { w with
        disk := d
        handles := Function.update w.handles u.file none
        transfer := (w.transfer.setFileLocalPath u.row path).setFileStatus u.row .done []
        log := w.log ++ [Effect.stored i u.row path content]
          ++ [Effect.fileStatus u.row .done] })) := by
  obtain ⟨d, hd, hcontent⟩ := closeFile_eq u.file w
  replace hcontent := hcontent h hf
  rw [hp] at hcontent
  have hsize : ({ w with
      disk := d
      handles := Function.update w.handles u.file none } : World).fileSize u.partPath =
      (h.written.take (w.env.kept u.partPath)).length := by
    unfold fileSize
    simp only [hcontent]
  rcases hs : settleUpload i u w with ⟨status, v⟩
  unfold settleUpload at hs
  simp only [hd, hsize, hf] at hs
  split at hs
  · obtain ⟨d', h'⟩ := removeFile_eq u.partPath
      { w with disk := d, handles := Function.update w.handles u.file none }
    rw [h'] at hs
    exact ⟨d', .inl ⟨500, _, by decide, hs.symm⟩⟩
  · rename_i hcomplete
    have hle : (w.transfer.entry u.row).size ≤
        (h.written.take (w.env.kept u.partPath)).length := by simpa using hcomplete
    simp only [hle, decide_true] at hs
    split at hs
    · obtain ⟨d', h'⟩ := removeFile_eq u.partPath
        { w with disk := d, handles := Function.update w.handles u.file none }
      rw [h'] at hs
      exact ⟨d', .inl ⟨422, _, by decide, hs.symm⟩⟩
    · rename_i hdigest
      have harrived : w.Arrived u := by
        refine ⟨by rwa [hd, hsize], fun h' hf' => ?_⟩
        obtain rfl := Option.some.inj (hf.symm.trans hf')
        exact not_not.1 hdigest
      obtain ⟨ok, d', h', hkept⟩ := renameFile_eq u.partPath u.finalPath
        { w with disk := d, handles := Function.update w.handles u.file none }
      rw [h'] at hs
      replace hkept := hkept.trans hcontent
      refine ⟨d', .inr ⟨if ok then u.finalPath else u.partPath, _, List.take_prefix _ _, hle,
        harrived, hkept, ?_⟩⟩
      cases ok <;> simp only [Bool.false_eq_true, if_false, if_true] at hkept hs ⊢ <;>
        rw [← hs] <;> simp only [fileDone, hkept] <;> rfl

theorem fileDone_eq (i : ConnId) (row : Nat) (path : QString) (w : World) : ∃ content,
    w.fileDone i row path = { w with
      transfer := (w.transfer.setFileLocalPath row path).setFileStatus row .done []
      log := w.log ++ [.stored i row path content, .fileStatus row .done] } := by
  unfold fileDone
  extract_lets content v
  refine ⟨content, ?_⟩
  simp only [v, setFileStatus, List.append_assoc, List.singleton_append]

/-- The end of an upload is about its file and its row. -/
theorem settleUpload_eq [Qt] (i : ConnId) (u : Upload) (w : World) : ∃ d t l,
    (settleUpload i u w).2 = { w with
      disk := d
      handles := Function.update w.handles u.file none
      transfer := t
      log := w.log ++ l } := by
  obtain ⟨d, hd, -⟩ := closeFile_eq u.file w
  unfold settleUpload
  extract_lets digest w₁ complete declared
  have hw₁ : w₁ = { w with
      disk := d
      handles := Function.update w.handles u.file none } := hd
  clear_value complete declared digest w₁
  subst hw₁
  split
  · obtain ⟨d', h'⟩ := removeFile_eq u.partPath
      { w with disk := d, handles := Function.update w.handles u.file none }
    rw [h']
    exact ⟨d', _, [.fileStatus u.row .failed], rfl⟩
  split
  · obtain ⟨d', h'⟩ := removeFile_eq u.partPath
      { w with disk := d, handles := Function.update w.handles u.file none }
    rw [h']
    exact ⟨d', _, [.fileStatus u.row .failed], rfl⟩
  have done : ∀ d' path, ∃ d t l, World.fileDone i u.row path { w with
      disk := d'
      handles := Function.update w.handles u.file none } = { w with
        disk := d
        handles := Function.update w.handles u.file none
        transfer := t
        log := w.log ++ l } := by
    intro d' path
    obtain ⟨content, hdone⟩ := fileDone_eq i u.row path { w with
      disk := d'
      handles := Function.update w.handles u.file none }
    exact ⟨d', _, _, hdone⟩
  obtain ⟨ok, d', h', -⟩ := renameFile_eq u.partPath u.finalPath
    { w with disk := d, handles := Function.update w.handles u.file none }
  rw [h']
  cases ok
  · exact done d' u.partPath
  · exact done d' u.finalPath

/-! ## Sessions -/

/-- When a request becomes the transfer, no row of it is done. -/
theorem status_park [Qt] (i : ConnId) (w : World) (row : Nat) :
    ((w.park i).transfer.entry row).status ≠ .done := by
  have ht := TransferModel.alike_setState (w.transfer.begin .receiving
    (requestPeer (w.conns i)).aliasName (requestPeer (w.conns i)).address
    (requestPeer (w.conns i)).deviceType (requestPeer (w.conns i)).fingerprint
    (parseEntries (requestFiles (w.conns i)))) .pending []
  rw [show ((w.park i).transfer.entry row).status = _ from ht.status row, TransferModel.entry,
    TransferModel.files_begin]
  by_cases hlt : row < (parseEntries (requestFiles (w.conns i))).length
  · rw [List.getD_eq_getElem _ _ hlt]
    obtain ⟨id, -, hid⟩ := List.mem_map.1 (List.getElem_mem hlt)
    rw [← hid]
    exact FileStatus.noConfusion
  · rw [List.getD_eq_default _ _ (Nat.le_of_not_lt hlt)]
    exact FileStatus.noConfusion

/-- Every token is one. -/
def HexTokens (tokens : AList fun _ : QString => QString) : Prop :=
  ∀ id token, tokens.lookup id = some token → ∀ c ∈ token, Crypto.isHexChar c = true

theorem HexTokens.empty : HexTokens ∅ := by
  intro id token h
  rw [AList.lookup_empty] at h
  cases h

theorem issueToken_eq (w : World) (row : Nat) : w.issueToken row = { w with
    drawn := w.drawn + 1
    transfer := w.transfer.setFileToken row (Crypto.generateToken w.random w.drawn)
    tokens := w.tokens.insert (w.transfer.entry row).id
      (Crypto.generateToken w.random w.drawn) } := rfl

theorem issueTokens_eq : ∀ (rows : List Nat) (w : World), HexTokens w.tokens →
    ∃ drawn t tokens, rows.foldl issueToken w =
      { w with drawn := drawn, transfer := t, tokens := tokens } ∧
      w.drawn ≤ drawn ∧ w.transfer.Alike t ∧ HexTokens tokens
  | [], w, hw => ⟨w.drawn, w.transfer, w.tokens, rfl, le_rfl, .refl _, hw⟩
  | row :: rows, w, hw => by
    have hhex : HexTokens (w.issueToken row).tokens := by
      intro id token h
      rw [issueToken_eq] at h
      simp only at h
      by_cases hid : id = (w.transfer.entry row).id
      · subst hid
        rw [AList.lookup_insert] at h
        obtain rfl := Option.some.inj h
        exact Crypto.generateToken_isHexChar _ _
      · rw [AList.lookup_insert_ne hid] at h
        exact hw id token h
    obtain ⟨d, t, tokens, h, hd, ht, ho⟩ := issueTokens_eq rows (w.issueToken row) hhex
    refine ⟨d, t, tokens, by rw [List.foldl_cons, h]; rfl, ?_, ?_, ho⟩
    · exact Nat.le_trans (Nat.le_succ _) hd
    · exact (TransferModel.alike_setFileToken _ _ _).trans ht

theorem issueTokens_setConn (j : ConnId) (c : HttpConnection) : ∀ (rows : List Nat) (w : World),
    rows.foldl issueToken (w.setConn j c) = (rows.foldl issueToken w).setConn j c
  | [], _ => rfl
  | row :: rows, w => issueTokens_setConn j c rows (w.issueToken row)

/-- Of the connection a session is opened for only the address matters. -/
theorem openSession_setConn {w : World} {i : ConnId} {c : HttpConnection}
    (hc : c.peerAddress = (w.conns i).peerAddress) (directory : QString) :
    (w.setConn i c).openSession i directory = (w.openSession i directory).setConn i c := by
  have htokens := issueTokens_setConn i c (List.range w.transfer.fileCount) { w with
    drawn := w.drawn + 1
    sessionId := Crypto.generateToken w.random w.drawn
    sessionAddress := (w.conns i).peerAddress
    sessionDirectory := directory
    tokens := ∅ }
  unfold openSession generateToken
  simp only [setConn, Function.update_self, hc] at htokens ⊢
  rw [htokens]
  rfl

/-- What `accept` opens. -/
theorem openSession_eq (w : World) (i : ConnId) (directory : QString) :
    ∃ id drawn t tokens, w.openSession i directory = { w with
      sessionId := id
      sessionAddress := (w.conns i).peerAddress
      sessionDirectory := directory
      drawn := drawn
      transfer := t
      tokens := tokens
      log := w.log ++ [Effect.issued id (w.conns i).peerAddress tokens] } ∧
      id = Crypto.generateToken w.random w.drawn ∧ w.drawn < drawn ∧ w.transfer.Alike t ∧
      HexTokens tokens := by
  obtain ⟨d, t, tokens, h, hd, ht, ho⟩ := issueTokens_eq
    (List.range w.transfer.fileCount) { w with
      drawn := w.drawn + 1
      sessionId := Crypto.generateToken w.random w.drawn
      sessionAddress := (w.conns i).peerAddress
      sessionDirectory := directory
      tokens := ∅ } .empty
  refine ⟨_, d, t, tokens, ?_, rfl, hd, ht, ho⟩
  unfold openSession generateToken
  simp only
  rw [h]
  rfl

end World

end LocalSend
