import LocalSend.Receive.Proof.Folder
import LocalSend.Receive.Proof.Lifecycle

/-!
# Accepting when the random source fails

`accept` draws a token for the session and one for each row, and does not look at what it drew. The
request is granted as a whole or refused if and only if the source answers every draw, rows that
share an id drew the same, and the parked connection can still be answered
(`accept_whole_iff`); a request that is refused draws nothing.
-/

set_option autoImplicit false

namespace LocalSend

theorem Crypto.generateToken_eq_nil {source : Crypto.Random} {n : Nat} :
    Crypto.generateToken source n = [] ↔ source n = none := by
  unfold Crypto.generateToken Crypto.randomHex Crypto.randomBytes
  cases source n with
  | none => exact iff_of_true rfl rfl
  | some bytes => exact iff_of_false (List.cons_ne_nil _ _) (Option.some_ne_none _)

/-- A table written out entry by entry is looked up as the table is. -/
theorem lookup_map_entries {β γ : Type} (f : β → γ) (t : AList fun _ : QString => β)
    (key : QString) : (t.entries.map fun e => (e.1, f e.2)).lookup key = (t.lookup key).map f := by
  unfold AList.lookup
  induction t.entries with
  | nil => rfl
  | cons e entries ih =>
    obtain ⟨key', value⟩ := e
    rw [List.map_cons, List.lookup_cons]
    by_cases hk : key = key'
    · subst hk
      simp
    · have hb : (key == key') = false := by simpa using hk
      rw [hb, List.dlookup_cons_ne _ _ hk]
      exact ih

/-! ## What an answer adds to a connection -/

/-- An answer would be written. -/
def HttpConnection.Answerable (c : HttpConnection) : Prop :=
  c.state ≠ .responded ∧ c.connected = true

/-- An error was answered. -/
def HttpConnection.Denied (c : HttpConnection) : Prop := ∃ r ∈ c.responses, 400 ≤ r.status

namespace Port

variable {σ : Type} {P : Port σ}

theorem sent_hangUp (hclosed : ∀ s, (P.get (P.closed s)).sent = (P.get s).sent) (s : σ) :
    (P.get (P.hangUp s)).sent = (P.get s).sent := by
  unfold hangUp onDisconnected
  split
  · rw [get_modify]
  · rw [hclosed, get_modify, get_modify]

theorem sent_transmit (hclosed : ∀ s, (P.get (P.closed s)).sent = (P.get s).sent) {s : σ}
    (hconn : (P.get s).connected = true) (status : Nat) (payload contentType : QByteArray) :
    (P.get (P.transmit status payload contentType s)).sent =
      (P.get s).sent ++ [.response ⟨status, contentType, (P.get s).extraHeaders, payload⟩] := by
  unfold transmit
  rw [if_pos hconn]
  extract_lets s₁ s₂
  have hs₁ : (P.get s₁).sent =
      (P.get s).sent ++ [.response ⟨status, contentType, (P.get s).extraHeaders, payload⟩] := by
    simp only [s₁, get_modify]
  have hs₂ : (P.get s₂).sent = (P.get s₁).sent := by
    simp only [s₂]
    split
    · exact sent_hangUp hclosed s₁
    · rfl
  split
  · rw [get_modify]
    exact hs₂.trans hs₁
  · rw [get_modify]
    exact hs₂.trans hs₁

/-- An answer is written once, and only to a socket that is up. -/
theorem sent_respond (hclosed : ∀ s, (P.get (P.closed s)).sent = (P.get s).sent) (s : σ)
    (status : Nat) (payload contentType : QByteArray) :
    ((P.get s).Answerable → (P.get (P.respond status payload contentType s)).sent =
      (P.get s).sent ++ [.response ⟨status, contentType, (P.get s).extraHeaders, payload⟩]) ∧
    (¬ (P.get s).Answerable →
      (P.get (P.respond status payload contentType s)).sent = (P.get s).sent) := by
  unfold respond HttpConnection.Answerable
  by_cases hst : (P.get s).state = .responded
  · rw [if_pos hst]
    exact ⟨fun h => absurd hst h.1, fun _ => rfl⟩
  · rw [if_neg hst]
    by_cases hconn : (P.get s).connected = true
    · refine ⟨fun _ => ?_, fun h => absurd ⟨hst, hconn⟩ h⟩
      rw [sent_transmit hclosed (by rwa [get_modify])]
      simp only [get_modify]
    · refine ⟨fun h => absurd h.2 hconn, fun _ => ?_⟩
      unfold transmit
      rw [if_neg (by rwa [get_modify]), get_modify]

end Port

/-! ## The tokens -/

namespace TransferModel

theorem token_setFileToken (t : TransferModel) {row : Nat} (h : row < t.fileCount)
    (token : QString) (row' : Nat) : ((t.setFileToken row token).entry row').token =
      if row' = row then token else (t.entry row').token := by
  unfold entry fileCount at *
  rw [files_setFileToken, List.getD_eq_getElem?_getD, List.getD_eq_getElem?_getD,
    List.getElem?_modify]
  by_cases hrow : row' = row
  · subst hrow
    rw [if_pos rfl, List.getElem?_eq_getElem h]
    simp
  · have hne : ¬ row = row' := fun heq => hrow heq.symm
    rw [if_neg hrow]
    simp [hne]

theorem id_setFileToken (t : TransferModel) (row : Nat) (token : QString) (row' : Nat) :
    ((t.setFileToken row token).entry row').id = (t.entry row').id :=
  congrArg Prod.fst (declared_entry (alike_setFileToken t row token).declared row')

end TransferModel

namespace World

section
variable {w v : World} {n : Nat}

/-- What the row `r` draws. -/
def drawnFor (w : World) (r : Nat) : QString := Crypto.generateToken w.random (w.drawn + r)

/-- The rows below `n` have drawn their tokens, each under its id; of rows that share an id one has
its token in the table. -/
structure TokensUpTo (w v : World) (n : Nat) : Prop where
  drawn : v.drawn = w.drawn + n
  random : v.random = w.random
  count : v.transfer.fileCount = w.transfer.fileCount
  id : ∀ r, (v.transfer.entry r).id = (w.transfer.entry r).id
  token : ∀ r < n, (v.transfer.entry r).token = w.drawnFor r
  listed : ∀ r < n, ∃ s < n, (w.transfer.entry s).id = (w.transfer.entry r).id ∧
    v.tokens.lookup (w.transfer.entry r).id = some (w.drawnFor s)

theorem TokensUpTo.issue (h : TokensUpTo w v n) (hn : n < w.transfer.fileCount) :
    TokensUpTo w (v.issueToken n) (n + 1) := by
  have htoken : Crypto.generateToken v.random v.drawn = w.drawnFor n := by
    rw [h.random, h.drawn]
    rfl
  rw [issueToken_eq, htoken]
  refine ⟨?_, h.random, ?_, fun r => ?_, fun r hr => ?_, fun r hr => ?_⟩
  · change v.drawn + 1 = w.drawn + (n + 1)
    rw [h.drawn, Nat.add_assoc]
  · have halike := TransferModel.alike_setFileToken v.transfer n (w.drawnFor n)
    exact (TransferModel.fileCount_congr halike.declared).trans h.count
  · exact (TransferModel.id_setFileToken ..).trans (h.id r)
  · change ((v.transfer.setFileToken n (w.drawnFor n)).entry r).token = w.drawnFor r
    rw [TransferModel.token_setFileToken _ (h.count ▸ hn)]
    split
    · rename_i heq
      rw [heq]
    · exact h.token r (by omega)
  · change ∃ s < n + 1, (w.transfer.entry s).id = (w.transfer.entry r).id ∧
      (v.tokens.insert (v.transfer.entry n).id (w.drawnFor n)).lookup (w.transfer.entry r).id =
        some (w.drawnFor s)
    rw [h.id n]
    by_cases hid : (w.transfer.entry r).id = (w.transfer.entry n).id
    · refine ⟨n, by omega, hid.symm, ?_⟩
      rw [hid, AList.lookup_insert]
    · have hne : r ≠ n := fun heq => hid (by rw [heq])
      obtain ⟨s, hs, hsame, hlook⟩ := h.listed r (by omega)
      refine ⟨s, by omega, hsame, ?_⟩
      rw [AList.lookup_insert_ne hid]
      exact hlook

theorem issueTokens_upTo (w : World) : ∀ n ≤ w.transfer.fileCount,
    TokensUpTo w ((List.range n).foldl issueToken w) n := by
  intro n
  induction n with
  | zero =>
    intro _
    exact ⟨rfl, rfl, rfl, fun _ => rfl, fun r hr => absurd hr (Nat.not_lt_zero r),
      fun r hr => absurd hr (Nat.not_lt_zero r)⟩
  | succ n ih =>
    intro hn
    rw [List.range_succ, List.foldl_append]
    exact (ih (by omega)).issue (by omega)

/-- The table holds the token of every row if and only if rows that share an id drew the same. -/
theorem TokensUpTo.listed_iff (h : TokensUpTo w v n) :
    (∀ r < n, v.tokens.lookup (v.transfer.entry r).id = some (v.transfer.entry r).token) ↔
    ∀ r < n, ∀ s < n, (w.transfer.entry r).id = (w.transfer.entry s).id →
      w.drawnFor r = w.drawnFor s := by
  constructor
  · intro hall r hr s hs hid
    have hlookr := hall r hr
    have hlooks := hall s hs
    rw [h.id, h.token r hr] at hlookr
    rw [h.id, h.token s hs, ← hid] at hlooks
    exact Option.some.inj (hlookr.symm.trans hlooks)
  · intro hshared r hr
    obtain ⟨s, hs, hid, hlook⟩ := h.listed r hr
    rw [h.id, h.token r hr, hlook, hshared s hs r hr hid]

/-! ## The two ends -/

/-- The folder cannot be made ready. -/
def Unwritable (w : World) : Prop :=
  w.folder = [] ∨ w.env.mkpath w.folder = false ∨ w.env.opens w.probePath = false ∨
    w.disk w.probePath = some .directory

theorem prepareDirectory_nil_iff (w : World) : w.prepareDirectory.1 = [] ↔ w.Unwritable := by
  rw [prepareDirectory_def]
  unfold Unwritable
  by_cases hmk : w.env.mkpath w.folder = true
  · -- a folder above the probe is not the probe
    have hprobe : ∀ p : QString, p = w.folder ∨ (p ++ [47]).isPrefixOf w.folder →
        p ≠ w.probePath := by
      intro p hp heq
      have hlen : w.probePath.length = w.folder.length + ProbeName.length := List.length_append
      have hname : 0 < ProbeName.length := by decide
      rcases hp with hp | hp
      · rw [← heq, hp] at hlen
        omega
      · have hle := (List.isPrefixOf_iff_prefix.1 hp).length_le
        rw [List.length_append, heq, hlen] at hle
        omega
    obtain ⟨d, hd, hkept⟩ : ∃ d, w.mkpath w.folder = (true, { w with disk := d }) ∧
        d w.probePath = w.disk w.probePath :=
      ⟨_, if_pos hmk, if_neg fun hnone => hprobe _ hnone.2 rfl⟩
    rw [hd]
    simp only
    by_cases hopen : w.env.opens w.probePath = true ∧ w.disk w.probePath ≠ some .directory
    · have htrue : openFile w.probePath { w with disk := d } =
          (true, { w with disk := Function.update d w.probePath (some (.file [])) }) :=
        if_pos ⟨hopen.1, fun hdir => hopen.2 (hkept.symm.trans hdir)⟩
      rw [htrue]
      exact ⟨.inl, fun h => h.resolve_right (by simp [hmk, hopen.1, hopen.2])⟩
    · have hfalse : openFile w.probePath { w with disk := d } = (false, { w with disk := d }) :=
        if_neg fun hboth => hopen ⟨hboth.1, fun hdir => hboth.2 (hkept.trans hdir)⟩
      rw [hfalse]
      refine iff_of_true rfl ?_
      by_cases hopens : w.env.opens w.probePath = true
      · exact .inr (.inr (.inr (not_not.1 fun hdir => hopen ⟨hopens, hdir⟩)))
      · exact .inr (.inr (.inl (Bool.eq_false_iff.2 hopens)))
  · rw [show w.mkpath w.folder = (false, w) from if_neg hmk]
    exact iff_of_true rfl (.inr (.inl (Bool.eq_false_iff.2 hmk)))

end

section
variable [Qt] {w : World} {i : ConnId}

/-- `v` is `w` once the parked connection was answered with `r`, if it could be. -/
structure Answers (i : ConnId) (r : Response) (w v : World) : Prop where
  sessionId : v.sessionId = w.sessionId
  tokens : v.tokens = w.tokens
  files : v.transfer.files = w.transfer.files
  written : (w.conns i).Answerable → (v.conns i).responses = (w.conns i).responses ++ [r]
  silent : ¬ (w.conns i).Answerable → (v.conns i).responses = (w.conns i).responses

omit [Qt] in
theorem files_onPendingClosed (i : ConnId) (w : World) :
    (w.onPendingClosed i).transfer.files = w.transfer.files ∧
      (w.onPendingClosed i).tokens = w.tokens := by
  unfold onPendingClosed
  split
  · exact ⟨rfl, rfl⟩
  · extract_lets v
    split
    · exact ⟨TransferModel.files_setState _ _ _, rfl⟩
    · exact ⟨rfl, rfl⟩

omit [Qt] in
theorem parkedPort_answers (w : World) (i : ConnId) (status : Nat)
    (payload contentType : QByteArray) :
    Answers i ⟨status, contentType, (w.conns i).extraHeaders, payload⟩ w
      ((parkedPort i).respond status payload contentType w) := by
  have hparted := parted_respond w i status payload contentType
  have hsent := Port.sent_respond (P := parkedPort i)
    (fun s => congrArg (fun f => (f i).sent) (conns_onPendingClosed i s)) w status payload
    contentType
  have hfiles : ((parkedPort i).respond status payload contentType w).transfer.files =
      w.transfer.files ∧
      ((parkedPort i).respond status payload contentType w).tokens = w.tokens := by
    obtain ⟨c, -, -, hv | hv⟩ := hparted
    · rw [hv]
      exact ⟨rfl, rfl⟩
    · rw [hv]
      exact files_onPendingClosed i w
  refine ⟨hparted.frame.1, hfiles.2, hfiles.1, fun h => ?_, fun h => ?_⟩
  · refine (congrArg (List.filterMap Message.response?) (hsent.1 h)).trans ?_
    exact List.filterMap_append
  · exact congrArg (List.filterMap Message.response?) (hsent.2 h)

omit [Qt] in
theorem setState_state (state : TransferState) (error : QString) (w : World) :
    (w.setState state error).transfer.state = state := by
  unfold World.setState TransferModel.setState TransferModel.flush
  split
  · rename_i hsame
    exact hsame.1
  · simp only
    split <;> rfl

/-- Nothing can be written: the request is answered 500. -/
theorem accept_unwritable (hp : w.pending = some i) (hdir : w.Unwritable) :
    w.accept.sessionId = w.sessionId ∧ w.accept.transfer.state = .failed ∧
    ((w.conns i).Answerable → (w.accept.conns i).responses =
      (w.conns i).responses ++ [⟨500, jsonType, (w.conns i).extraHeaders, []⟩]) ∧
    (¬ (w.conns i).Answerable → (w.accept.conns i).responses = (w.conns i).responses) := by
  obtain ⟨directory, d, heq⟩ := prepareDirectory_eq w
  obtain rfl : directory = [] := by
    have hnil := (prepareDirectory_nil_iff w).2 hdir
    rwa [heq] at hnil
  obtain ⟨u, hu⟩ : ∃ u, u = { w with disk := d } := ⟨_, rfl⟩
  have hanswers := parkedPort_answers u i 500 [] jsonType
  have hconns : u.conns = w.conns := by rw [hu]
  have hclosed : u.sessionId = w.sessionId := by rw [hu]
  have haccept : w.accept = World.setState .failed (str "Cannot write to the destination folder")
      { ((parkedPort i).respond 500 [] jsonType u).releasePending with acceptTimer := false } := by
    unfold accept
    split
    · rename_i hnone
      cases hp.symm.trans hnone
    · rename_i j hj
      obtain rfl := Option.some.inj (hp.symm.trans hj)
      rw [heq, ← hu]
      rfl
  rw [hconns] at hanswers
  rw [haccept]
  refine ⟨hanswers.sessionId.trans hclosed, setState_state .., fun h => ?_, fun h => ?_⟩
  · have hwritten := hanswers.written (by rwa [hconns])
    rwa [hconns] at hwritten
  · have hsilent := hanswers.silent (by rwa [hconns])
    rwa [hconns] at hsilent

/-- A session is opened, whatever was drawn for it. -/
theorem accept_writable (hp : w.pending = some i) (hdir : ¬ w.Unwritable) :
    w.accept.sessionId = w.drawnFor 0 ∧ w.accept.idleTimer = true ∧
    w.accept.transfer.state = .active ∧
    (∃ v, TokensUpTo { w with drawn := w.drawn + 1 } v w.transfer.fileCount ∧
      w.accept.tokens = v.tokens ∧ w.accept.transfer.files = v.transfer.files) ∧
    ((w.conns i).Answerable → (w.accept.conns i).responses = (w.conns i).responses ++
      [⟨200, jsonType, (w.conns i).extraHeaders, Qt.toJson w.accept.acceptResponse⟩]) ∧
    (¬ (w.conns i).Answerable → (w.accept.conns i).responses = (w.conns i).responses) := by
  obtain ⟨directory, d, heq⟩ := prepareDirectory_eq w
  have hne : directory ≠ [] := by
    intro hnil
    have hnil' := (prepareDirectory_nil_iff w).not.2 hdir
    rw [heq] at hnil'
    exact hnil' hnil
  obtain ⟨s, hs⟩ : ∃ s, s = World.openSession i directory { w with disk := d } := ⟨_, rfl⟩
  have hupto := issueTokens_upTo { w with
    disk := d
    drawn := w.drawn + 1
    sessionId := Crypto.generateToken w.random w.drawn
    sessionAddress := (w.conns i).peerAddress
    sessionDirectory := directory
    tokens := ∅ } w.transfer.fileCount le_rfl
  have hconns : s.conns = w.conns := by
    obtain ⟨id, d', t, tokens, h, -⟩ := openSession_eq { w with disk := d } i directory
    rw [hs, h]
  have hid : s.sessionId = w.drawnFor 0 := by
    obtain ⟨id, d', t, tokens, h, hid, -⟩ := openSession_eq { w with disk := d } i directory
    rw [hs, h]
    exact hid
  have hanswers := parkedPort_answers s i 200 (Qt.toJson s.acceptResponse) jsonType
  obtain ⟨v, hv⟩ : ∃ v, v = (parkedPort i).respond 200 (Qt.toJson s.acceptResponse) jsonType s :=
    ⟨_, rfl⟩
  rw [← hv, hconns] at hanswers
  have haccept : w.accept = World.emit .started { World.setState .active [] { v.releasePending with
      acceptTimer := false
      transfer := v.transfer.setDestination v.sessionDirectory } with idleTimer := true } := by
    unfold accept
    split
    · rename_i hnone
      cases hp.symm.trans hnone
    · rename_i j hj
      obtain rfl := Option.some.inj (hp.symm.trans hj)
      rw [heq]
      simp only
      rw [if_neg hne, ← hs, Port.respondJson, ← hv]
      rfl
  have hresponse : w.accept.acceptResponse = s.acceptResponse := by
    unfold acceptResponse
    rw [haccept]
    change [_, (str "sessionId", QJsonValue.string v.sessionId)] = _
    rw [← hanswers.sessionId, ← hanswers.tokens]
    rfl
  rw [hresponse]
  rw [haccept]
  refine ⟨hanswers.sessionId.trans hid, rfl, setState_state .., ⟨s, ?_, hanswers.tokens, ?_⟩,
    fun h => ?_, fun h => ?_⟩
  · rw [hs]
    exact ⟨hupto.drawn, hupto.random, hupto.count, hupto.id, hupto.token, hupto.listed⟩
  · exact (TransferModel.files_setState _ _ _).trans hanswers.files
  · have hwritten := hanswers.written (by rwa [hconns])
    rwa [hconns] at hwritten
  · have hsilent := hanswers.silent (by rwa [hconns])
    rwa [hconns] at hsilent

/-! ## All or nothing -/

omit [Qt] in
theorem acceptResponse_files (w : World) (id token : QString) :
    (w.acceptResponse.value (str "files")).toObject.value id = .string token ↔
      w.tokens.lookup id = some token := by
  have hfiles : (w.acceptResponse.value (str "files")).toObject =
      w.tokens.entries.map fun e => (e.1, QJsonValue.string e.2) := by
    unfold acceptResponse QJsonObject.value
    rw [List.lookup_cons, show (str "files" == str "files") = true from by decide]
    rfl
  rw [hfiles]
  unfold QJsonObject.value
  rw [lookup_map_entries]
  cases w.tokens.lookup id with
  | none => exact iff_of_false QJsonValue.noConfusion (Option.some_ne_none _).symm
  | some t =>
    change QJsonValue.string t = .string token ↔ some t = some token
    rw [QJsonValue.string.injEq, Option.some.injEq]

omit [Qt] in
theorem acceptResponse_sessionId (w : World) :
    w.acceptResponse.value (str "sessionId") = .string w.sessionId := by
  unfold acceptResponse QJsonObject.value
  rw [List.lookup_cons, show (str "sessionId" == str "files") = false from by decide,
    List.lookup_cons, show (str "sessionId" == str "sessionId") = true from by decide]
  rfl

/-- A session that is open and can time out; its id and a token for every row are in the 200 that
the connection has been sent since `w`. -/
structure Granted (i : ConnId) (w v : World) : Prop where
  open_ : v.sessionId ≠ []
  timer : v.idleTimer = true
  tokens : ∀ r < v.transfer.fileCount, (v.transfer.entry r).token ≠ []
  answered : (v.conns i).responses = (w.conns i).responses ++
    [⟨200, jsonType, (w.conns i).extraHeaders, Qt.toJson v.acceptResponse⟩]
  session : v.acceptResponse.value (str "sessionId") = .string v.sessionId
  listed : ∀ r < v.transfer.fileCount,
    (v.acceptResponse.value (str "files")).toObject.value (v.transfer.entry r).id =
      .string (v.transfer.entry r).token

/-- No session is open, nothing is under way, and an error was answered. -/
structure Turned (i : ConnId) (v : World) : Prop where
  closed : v.sessionId = []
  inactive : v.transfer.state ≠ .active
  denied : (v.conns i).Denied

/-- The source answers the draw of the session and that of every row, and rows that share an id draw
the same. -/
def Draws (w : World) : Prop :=
  (∀ k ≤ w.transfer.fileCount, w.random (w.drawn + k) ≠ none) ∧
  ∀ r < w.transfer.fileCount, ∀ s < w.transfer.fileCount,
    (w.transfer.entry r).id = (w.transfer.entry s).id →
      w.drawnFor (r + 1) = w.drawnFor (s + 1)

omit [Qt] in
theorem drawnFor_succ (w : World) (r : Nat) :
    ({ w with drawn := w.drawn + 1 } : World).drawnFor r = w.drawnFor (r + 1) :=
  congrArg (Crypto.generateToken w.random) (by simp only; omega)

omit [Qt] in
/-- The source answered every draw, and rows that share an id drew the same. -/
theorem TokensUpTo.draws_iff {v : World}
    (h : TokensUpTo { w with drawn := w.drawn + 1 } v w.transfer.fileCount) :
    w.Draws ↔ w.drawnFor 0 ≠ [] ∧ (∀ r < v.transfer.fileCount, (v.transfer.entry r).token ≠ []) ∧
      ∀ r < v.transfer.fileCount,
        v.tokens.lookup (v.transfer.entry r).id = some (v.transfer.entry r).token := by
  have hcount : v.transfer.fileCount = w.transfer.fileCount := h.count
  have hne : ∀ k, w.random (w.drawn + k) ≠ none ↔ w.drawnFor k ≠ [] := fun k =>
    Crypto.generateToken_eq_nil.not.symm
  have hlisted := h.listed_iff
  simp only [drawnFor_succ] at hlisted
  rw [hcount, hlisted]
  have htokens : (∀ r < w.transfer.fileCount, (v.transfer.entry r).token ≠ []) ↔
      ∀ r < w.transfer.fileCount, w.drawnFor (r + 1) ≠ [] := by
    refine forall₂_congr fun r hr => ?_
    rw [h.token r hr, drawnFor_succ]
  rw [htokens, ← and_assoc]
  refine and_congr_left fun _ => ?_
  simp only [hne]
  constructor
  · exact fun hall => ⟨hall 0 (Nat.zero_le _), fun r hr => hall (r + 1) hr⟩
  · rintro ⟨hzero, hrows⟩ k hk
    cases k with
    | zero => exact hzero
    | succ r => exact hrows r hk

/-- The request is granted or refused, as a whole, if and only if the connection can be answered and
the folder or else every draw is to be had; a folder that is not to be had may find the request
refused already. -/
theorem accept_whole_iff (hp : w.pending = some i) (hclosed : w.sessionId = []) :
    (Granted i w w.accept ∨ Turned i w.accept) ↔
    (w.Unwritable ∧ ((w.conns i).Answerable ∨ (w.conns i).Denied)) ∨
    (¬ w.Unwritable ∧ (w.conns i).Answerable ∧ w.Draws) := by
  by_cases hdir : w.Unwritable
  · obtain ⟨hid, hstate, hwritten, hsilent⟩ := accept_unwritable hp hdir
    have hturned : Granted i w w.accept ∨ Turned i w.accept ↔ (w.accept.conns i).Denied := by
      constructor
      · rintro (h | h)
        · exact absurd (hid.trans hclosed) h.open_
        · exact h.denied
      · intro h
        refine .inr ⟨hid.trans hclosed, ?_, h⟩
        rw [hstate]
        exact TransferState.noConfusion
    rw [hturned]
    unfold HttpConnection.Denied
    by_cases hopen : (w.conns i).Answerable
    · rw [hwritten hopen]
      refine iff_of_true ⟨_, List.mem_append_right _ List.mem_cons_self, ?_⟩
        (.inl ⟨hdir, .inl hopen⟩)
      change 400 ≤ 500
      decide
    · rw [hsilent hopen]
      constructor
      · exact fun h => .inl ⟨hdir, .inr h⟩
      · rintro (h | h)
        · exact h.2.resolve_left hopen
        · exact absurd hdir h.1
  · obtain ⟨hid, htimer, hstate, ⟨v, hv, htokens, hfiles⟩, hwritten, hsilent⟩ :=
      accept_writable hp hdir
    have hcount : w.accept.transfer.fileCount = v.transfer.fileCount := congrArg List.length hfiles
    have hentry : ∀ r, w.accept.transfer.entry r = v.transfer.entry r := fun r =>
      congrArg (fun l => l.getD r default) hfiles
    have hgranted : Granted i w w.accept ∨ Turned i w.accept ↔ Granted i w w.accept :=
      or_iff_left fun h => h.inactive hstate
    rw [hgranted]
    have hdraws := hv.draws_iff
    rw [← hcount, ← htokens, ← hid] at hdraws
    constructor
    · intro h
      have hopen : (w.conns i).Answerable := by
        by_contra hopen
        have hlen := congrArg List.length ((hsilent hopen).symm.trans h.answered)
        rw [List.length_append, List.length_singleton] at hlen
        omega
      refine .inr ⟨hdir, hopen, hdraws.2 ⟨h.open_, fun r hr => ?_, fun r hr => ?_⟩⟩
      · rw [← hentry]
        exact h.tokens r hr
      · rw [← hentry]
        exact (acceptResponse_files _ _ _).1 (h.listed r hr)
    · rintro (h | ⟨-, hopen, h⟩)
      · exact absurd h.1 hdir
      · obtain ⟨hne, hfilled, hlisted⟩ := hdraws.1 h
        refine ⟨hne, htimer, fun r hr => ?_, hwritten hopen, acceptResponse_sessionId _,
          fun r hr => (acceptResponse_files _ _ _).2 ?_⟩
        · rw [hentry]
          exact hfilled r hr
        · rw [hentry]
          exact hlisted r hr

end

section

local instance drawnQt : Qt := Ascii.qt [(Ascii.json oneFile, oneFile)] []

/-- A file is offered, to a device whose random source is this one. -/
def offeredTo (source : Crypto.Random) : World :=
  [Event.startListening,
    .connect (str "10.0.0.2") none,
    .readyRead 0 (post prepareTarget (Ascii.json oneFile))].foldl step
    (fresh { AppSettings.trusting with quickSave := false } .obliging source)

/-- When the source does not answer, 200 is answered and the transfer is active for ever, with no
session that could end it. -/
theorem unanswered_draw_stuck :
    let w := (offeredTo fun _ => none).accept
    (offeredTo fun _ => none).pending = some 0 ∧
      (w.conns 0).responses.map (·.status) = [200] ∧ w.sessionId = [] ∧
      w.transfer.state = .active ∧ (w.step .sessionIdle).transfer.state = .active := by
  decide +kernel

theorem counted_draws_whole :
    let w := offeredTo countingSource
    (Granted 0 w w.accept ∨ Turned 0 w.accept) ↔
      (w.Unwritable ∧ ((w.conns 0).Answerable ∨ (w.conns 0).Denied)) ∨
      (¬ w.Unwritable ∧ (w.conns 0).Answerable ∧ w.Draws) := by
  have hpending : (offeredTo countingSource).pending = some 0 := by decide +kernel
  have hclosed : (offeredTo countingSource).sessionId = [] := by decide +kernel
  exact accept_whole_iff hpending hclosed

end

end World

end LocalSend
