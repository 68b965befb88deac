import LocalSend.Receive.Proof.Disk
import LocalSend.Receive.Proof.Explained

/-!
# What an answer of success stands for

Every row that is done was completed by an upload of its file in this session (`Filing.rows`), so
that a success told to an upload means that its file is stored (`World.Filed`); and a session told
to a prepare-upload was opened for it. The acts are sorted by what they have to do with that
(`Act.told`); `body` says what the body of each connection is, should all of it arrive.
-/

set_option autoImplicit false

namespace LocalSend

/-- What `accept` answers when it opens a session. -/
def acceptance (sessionId : QString) (tokens : AList fun _ : QString => QString) : QJsonObject := [
  (str "files", .object (tokens.entries.map fun e => (e.1, .string e.2))),
  (str "sessionId", .string sessionId)]

theorem Log.Issued.mono {log log' : List Effect} {id : QString}
    {tokens : AList fun _ : QString => QString} {i : ConnId} (h : Log.Issued log id tokens i)
    (hlog : log <+: log') : Log.Issued log' id tokens i := by
  obtain ⟨pre, address, post, a, rfl, ha, hi⟩ := h
  obtain ⟨l, rfl⟩ := hlog
  exact ⟨pre, address, post ++ l, a, by simp, ha, hi⟩

namespace World

/-- An upload of this file in this session was stored, as the file of the row of its id, and the row
became done. -/
structure FiledBy (body : ConnId → QByteArray) (w : World) (sessionId fileId : QString)
    (j : ConnId) : Prop where
  born : j < w.nextConn
  head : (w.conns j).state ≠ .readingHeaders
  path : (w.conns j).path = endpoint Protocol.PathUpload
  session : (w.conns j).queryValue (str "sessionId") = sessionId
  file : (w.conns j).fileId = fileId
  nonempty : sessionId ≠ []
  stored : ∃ pre row path post a,
    w.log = pre ++ Effect.stored j row path (body j) :: Effect.fileStatus row .done :: post ∧
    Log.asked pre = some a ∧ row < a.files.length ∧ (a.files.getD row default).id = fileId

def Filed (body : ConnId → QByteArray) (w : World) (sessionId fileId : QString) : Prop :=
  ∃ j, w.FiledBy body sessionId fileId j

section
variable [Qt] {g : Guard} {w v : World} {i : ConnId} {body : ConnId → QByteArray}

/-- What is on record stays on record. -/
structure Later (w v : World) : Prop where
  log : w.log <+: v.log
  born : w.nextConn ≤ v.nextConn
  kept : ∀ j < w.nextConn, (w.conns j).Kept (v.conns j)

omit [Qt] in
theorem Later.refl (w : World) : Later w w := ⟨List.prefix_rfl, Nat.le_refl _, fun _ _ => .refl _⟩

omit [Qt] in
theorem Later.trans {u : World} (h : Later w v) (h' : Later v u) : Later w u where
  log := h.log.trans h'.log
  born := Nat.le_trans h.born h'.born
  kept j hj := (h.kept j hj).trans (h'.kept j (Nat.lt_of_lt_of_le hj h.born))

theorem Act.later (ha : Act g w v) (h : w.Inv) : Later w v :=
  ⟨ha.grows h, (ha.kept h).1, (ha.kept h).2⟩

omit [Qt] in
theorem FiledBy.later {sessionId fileId : QString} (h : w.FiledBy body sessionId fileId i)
    (hl : Later w v) : v.FiledBy body sessionId fileId i where
  born := Nat.lt_of_lt_of_le h.born hl.born
  head := ((hl.kept i h.born).request h.head).1
  path := ((hl.kept i h.born).request h.head).2.2.1.trans h.path
  session := ((hl.kept i h.born).queryValue h.head _).trans h.session
  file := ((hl.kept i h.born).fileId h.head).trans h.file
  nonempty := h.nonempty
  stored := by
    obtain ⟨pre, row, path, post, a, hlog, ha⟩ := h.stored
    obtain ⟨l, hl⟩ := hl.log
    exact ⟨pre, row, path, post ++ l, a, by rw [← hl, hlog]; simp, ha⟩

omit [Qt] in
theorem Filed.later {sessionId fileId : QString} (h : w.Filed body sessionId fileId)
    (hl : Later w v) : v.Filed body sessionId fileId :=
  h.imp fun _ hj => hj.later hl

/-- What a success told to `i` stands for. -/
structure Backed (body : ConnId → QByteArray) (w : World) (i : ConnId) (r : Response) : Prop where
  head : (w.conns i).state ≠ .readingHeaders
  upload : (w.conns i).path = endpoint Protocol.PathUpload →
    (w.conns i).method ≠ str "OPTIONS" →
    w.Filed body ((w.conns i).queryValue (str "sessionId")) (w.conns i).fileId
  prepare : (w.conns i).path = endpoint Protocol.PathPrepareUpload → r.status = 200 →
    ∃ sessionId tokens, r.payload = Qt.toJson (acceptance sessionId tokens) ∧
      Log.Issued w.log sessionId tokens i
  asked : (w.conns i).method = str "OPTIONS" ∨ (w.conns i).path ≠ []

theorem Backed.later {r : Response} (h : Backed body w i r) (hi : i < w.nextConn)
    (hl : Later w v) : Backed body v i r := by
  obtain ⟨hst, hmethod, hpath, -⟩ := (hl.kept i hi).request h.head
  refine ⟨hst, fun hp hm => ?_, fun hp h200 => ?_, by rw [hmethod, hpath]; exact h.asked⟩
  · rw [hpath] at hp
    rw [hmethod] at hm
    rw [(hl.kept i hi).queryValue h.head, (hl.kept i hi).fileId h.head]
    exact (h.upload hp hm).later hl
  · rw [hpath] at hp
    obtain ⟨sessionId, tokens, hpayload, hissued⟩ := h.prepare hp h200
    exact ⟨sessionId, tokens, hpayload, hissued.mono hl.log⟩

/-- The answers of success, and what they stand for. -/
structure Filing (body : ConnId → QByteArray) (w : World) : Prop where
  waiting : w.pending ≠ none → ∀ row, (w.transfer.entry row).status ≠ .done
  rows : w.sessionId ≠ [] → ∀ row fileId, w.transfer.indexOfFile fileId = some row →
    (w.transfer.entry row).status = .done → w.Filed body w.sessionId fileId
  told : ∀ i < w.nextConn, ∀ r, r.Success → Message.response r ∈ (w.conns i).sent →
    Backed body w i r

omit [Qt] in
theorem FiledBy.congr {body' : ConnId → QByteArray} {sessionId fileId : QString}
    (h : w.FiledBy body sessionId fileId i) (hb : ∀ j < w.nextConn, body' j = body j) :
    w.FiledBy body' sessionId fileId i := { h with
  stored := by
    rw [hb i h.born]
    exact h.stored }

/-- Of connections that are not there yet the body does not matter. -/
theorem Filing.congr {body' : ConnId → QByteArray} (h : Filing body w)
    (hb : ∀ j < w.nextConn, body' j = body j) : Filing body' w where
  waiting := h.waiting
  rows hs row fileId hrow hd := (h.rows hs row fileId hrow hd).imp fun _ hj => hj.congr hb
  told i hi r hr hsent :=
    let hbacked := h.told i hi r hr hsent
    { hbacked with upload := fun hp hm => (hbacked.upload hp hm).imp fun _ hj => hj.congr hb }

/-- No success is told in between. -/
def Untold (w v : World) : Prop := ∀ i < v.nextConn, ∀ r : Response, r.Success →
  Message.response r ∈ (v.conns i).sent → i < w.nextConn ∧ Message.response r ∈ (w.conns i).sent

/-- What an act has to do with the answers of success. -/
inductive Told (g : Guard) (w v : World) : Prop
  | still : (v.sessionId = w.sessionId ∨ v.sessionId = []) →
      (v.pending = w.pending ∨ v.pending = none) →
      v.transfer.declared = w.transfer.declared →
      (∀ row, (v.transfer.entry row).status = .done → (w.transfer.entry row).status = .done) →
      Untold w v → Told g w v
  | reply {i : ConnId} {r : Response} {c : HttpConnection} : (w.conns i).state ≠ .readingHeaders →
      w.Grants i r → (∀ r', r'.Success → Message.response r' ∈ c.sent →
        r' = r ∨ Message.response r' ∈ (w.conns i).sent) → v = w.setConn i c → Told g w v
  | park {i : ConnId} : ¬ w.Busy → v = w.park i → Told g w v
  | opens : w.pending ≠ none → v.pending = none → v.conns = w.conns → v.nextConn = w.nextConn →
      (∀ row, (v.transfer.entry row).status = (w.transfer.entry row).status) → Told g w v
  | stores {i : ConnId} {u : Upload} {path : QString} {h : HashingFile} :
      w.uploads.lookup i = some u → w.handles i = some h → g.finish w i →
      v.log = w.log ++ [Effect.stored i u.row path h.written] ++ [Effect.fileStatus u.row .done] →
      v.sessionId = w.sessionId → v.pending = w.pending →
      v.transfer.declared = w.transfer.declared →
      (∀ row, (v.transfer.entry row).status = .done →
        row = u.row ∨ (w.transfer.entry row).status = .done) →
      v.conns = w.conns → v.nextConn = w.nextConn → Told g w v

omit [Qt] in
theorem Untold.same (hc : v.conns = w.conns) (hn : v.nextConn = w.nextConn) : Untold w v := by
  intro i hi r _ hr
  rw [hc] at hr
  exact ⟨hn ▸ hi, hr⟩

/-- Whatever a connection says, it is not of success. -/
def NoSuccess (c c' : HttpConnection) : Prop :=
  ∃ l, c'.sent = c.sent ++ l ∧ ∀ r, Message.response r ∈ l → ¬ r.Success

omit [Qt] in
theorem NoSuccess.silent {c c' : HttpConnection} (h : c'.sent = c.sent) : NoSuccess c c' :=
  ⟨[], by rw [h, List.append_nil], by simp⟩

omit [Qt] in
theorem Untold.steps (hc : ∀ i, NoSuccess (w.conns i) (v.conns i))
    (hn : v.nextConn = w.nextConn) : Untold w v := by
  intro i hi r hsuccess hr
  obtain ⟨l, hsent, hl⟩ := hc i
  rw [hsent] at hr
  exact ⟨hn ▸ hi, (List.mem_append.1 hr).resolve_right fun hmem => hl r hmem hsuccess⟩

omit [Qt] in
/-- One connection says something. -/
theorem Untold.update {c : HttpConnection} (hv : v.conns = Function.update w.conns i c)
    (hn : v.nextConn = w.nextConn) (hc : NoSuccess (w.conns i) c) : Untold w v := by
  refine .steps (fun j => ?_) hn
  rw [hv]
  by_cases hj : j = i
  · subst hj
    rw [Function.update_self]
    exact hc
  · rw [Function.update_of_ne hj]
    exact .silent rfl

/-- Nothing but the connections, the log and what is of no interest here has changed. -/
theorem Told.calm (hs : v.sessionId = w.sessionId) (hp : v.pending = w.pending)
    (ht : v.transfer = w.transfer) (hu : Untold w v) : Told g w v :=
  .still (.inl hs) (.inl hp) (by rw [ht]) (fun row hd => by rwa [ht] at hd) hu

/-- A row that was not done is given another status. -/
theorem Told.mark {row : Nat} {status : FileStatus} {error : QString}
    (hs : v.sessionId = w.sessionId) (hp : v.pending = w.pending)
    (ht : v.transfer = w.transfer.setFileStatus row status error) (hstatus : status ≠ .done)
    (hu : Untold w v) : Told g w v := by
  refine .still (.inl hs) (.inl hp) ?_ (fun row' hd => ?_) hu
  · rw [ht]
    exact TransferModel.declared_setFileStatus _ _ _ _
  · rw [ht, TransferModel.status_setFileStatus] at hd
    split at hd
    · exact absurd hd hstatus
    · exact hd

theorem Act.told (ha : Act g w v) (h : w.Inv) (he : w.Explained .all) : Told g w v := by
  have same : ∀ {v : World}, v.conns = w.conns → v.nextConn = w.nextConn → Untold w v := .same
  cases ha with
  | outside => exact .calm rfl rfl rfl (same rfl rfl)
  | aside => exact .calm rfl rfl rfl (same rfl rfl)
  | files => exact .calm rfl rfl rfl (same rfl rfl)
  | probe => exact .calm rfl rfl rfl (same rfl rfl)
  | conns hc => exact .calm rfl rfl rfl (.steps (fun i => (hc i).sent) rfl)
  | read _ hc => exact .calm rfl rfl rfl (.update rfl rfl hc.sent)
  | complete => exact .calm rfl rfl rfl (.update rfl rfl (.silent rfl))
  | @reply i r c hst hg hc =>
    refine .reply hst hg (fun r' hsuccess hr' => ?_) rfl
    obtain ⟨l, hsent, hl⟩ := hc.sent
    rw [hsent] at hr'
    have hr' := (List.mem_append.1 hr').resolve_right fun hmem => hl r' hmem hsuccess
    rcases List.mem_append.1 hr' with hr' | hr'
    · exact .inr hr'
    · exact .inl (Message.response.inj (List.mem_singleton.1 hr'))
  | connect _ address certificate =>
    refine .calm rfl rfl rfl fun j hj r hsuccess hr => ?_
    by_cases hnew : j = w.nextConn
    · subst hnew
      rw [show (w.connect address certificate).conns w.nextConn = _ from
        Function.update_self ..] at hr
      cases hr
    · rw [show (w.connect address certificate).conns j = _ from
        Function.update_of_ne hnew _ _] at hr
      exact ⟨Nat.lt_of_le_of_ne (Nat.le_of_lt_succ hj) hnew, hr⟩
  | transfer ht =>
    exact .still (.inl rfl) (.inl rfl) ht.declared (fun row hd => (ht.status row).symm.trans hd)
      (same rfl rfl)
  | wrote =>
    unfold World.write
    split <;> exact .calm rfl rfl rfl (.update rfl rfl (.silent rfl))
  | short _ _ _ _ hc =>
    unfold World.write
    split <;> exact .calm rfl rfl rfl (.update rfl rfl hc.sent)
  | park hb => exact .park hb rfl
  | prompt => exact .calm rfl rfl rfl (same rfl rfl)
  | @openSession i directory hp =>
    obtain ⟨id, d, t, tokens, heq, -, -, ht, -⟩ := openSession_eq w i directory
    rw [heq]
    refine .opens ?_ rfl rfl rfl fun row => ht.status row
    rw [hp]
    exact Option.some_ne_none i
  | release => exact .still (.inl rfl) (.inr rfl) rfl (fun _ hd => hd) (same rfl rfl)
  | @enter i row path _ hadm =>
    obtain ⟨d, hd⟩ := entered_eq w i row path { w.conns i with
      sink := some i
      maxBodyBytes := (w.transfer.entry row).size }
    rw [hd]
    exact .mark rfl rfl rfl (show FileStatus.transferring ≠ .done from FileStatus.noConfusion)
      (.update rfl rfl (.silent rfl))
  | mark hrow hs => exact .mark rfl rfl rfl hs (same rfl rfl)
  | @drop i u c error hu hc =>
    obtain ⟨d, hd⟩ := dropUpload_eq i u error w
    rw [hd]
    exact .mark rfl rfl rfl (show FileStatus.failed ≠ .done from FileStatus.noConfusion)
      (.update rfl rfl hc.sent)
  | @settle i u hu _ _ hg =>
    have hs := h.served i u hu
    obtain ⟨f, hf, hp, hle, -⟩ := hs.handle
    obtain ⟨d, ⟨status, error, -, heq⟩ | ⟨path, content, hpart, hsize, harrived, -, heq⟩⟩ :=
      settleUpload_spec (w := { w with uploads := w.uploads.erase i }) i (hs.file.symm ▸ hf) hp
    · rw [heq]
      exact .mark rfl rfl rfl (show FileStatus.failed ≠ .done from FileStatus.noConfusion)
        (same rfl rfl)
    · obtain ⟨a, ha⟩ := h.recalls (.inr hs.open_)
      have hrow := (TransferModel.entry_of_indexOfFile hs.found).1
      obtain rfl : content = f.written := by
        have hfit := (hs.limit ▸ hle) (ha.size_nonneg he hrow)
        have hsize' : (w.transfer.entry u.row).size ≤ content.length := hsize
        have hlen := hpart.length_le
        exact hpart.eq_of_length (by omega)
      have halike := TransferModel.alike_setFileLocalPath w.transfer u.row path
      rw [heq]
      refine .stores hu hf (hg ((arrived_uploads _).1 harrived)) rfl rfl rfl ?_ (fun row hd => ?_)
        rfl rfl
      · exact (TransferModel.declared_setFileStatus _ _ _ _).trans halike.declared
      · rw [TransferModel.status_setFileStatus, halike.status] at hd
        by_cases hrow' : row = u.row
        · exact .inl hrow'
        · exact .inr (by simpa [hrow'] using hd)
  | remember =>
    unfold rememberPeer
    split
    · exact .calm rfl rfl rfl (same rfl rfl)
    · exact .calm rfl rfl rfl (same rfl rfl)
  | record =>
    unfold writeHistory
    split
    · exact .calm rfl rfl rfl (same rfl rfl)
    · exact .calm rfl rfl rfl (same rfl rfl)
  | finish =>
    exact .still (.inr rfl) (.inl rfl) rfl (fun _ hd => hd) (same rfl rfl)
  | posted => exact .calm rfl rfl rfl (same rfl rfl)

/-- What arrives is the body that the connection is to bring. -/
def filing (body : ConnId → QByteArray) : Guard := { Guard.all with
  finish := fun w i => ∀ u h, w.uploads.lookup i = some u → w.handles i = some h →
    h.written = body i }

theorem Backed.reply {r : Response} (hw : Filing body w)
    (hst : (w.conns i).state ≠ .readingHeaders) (hg : w.Grants i r) : Backed body w i r where
  head := hst
  upload hp hm := by
    obtain ⟨hopen, hsession, row, hrow, hdone⟩ := hg.upload hp hm
    rw [hsession]
    exact hw.rows hopen row _ hrow hdone
  prepare hp h200 := ⟨_, _, hg.prepare hp h200⟩
  asked := hg.asked

theorem Act.filing (ha : Act (filing body) w v) (h : w.Inv) (he : w.Explained .all)
    (hw : Filing body w) : Filing body v := by
  have hl := ha.later h
  have rows : ∀ row fileId, w.transfer.indexOfFile fileId = some row → w.sessionId ≠ [] →
      (w.transfer.entry row).status = .done → v.Filed body w.sessionId fileId :=
    fun row fileId hrow hs hd => (hw.rows hs row fileId hrow hd).later hl
  cases ha.told h he with
  | still hs hp ht hdone hu =>
    refine ⟨fun hpend row hd => ?_, fun hopen row fileId hrow hd => ?_, fun i hi r hr hsent => ?_⟩
    · rcases hp with hp | hp
      · exact hw.waiting (hp ▸ hpend) row (hdone row hd)
      · exact hpend hp
    · rcases hs with hs | hs
      · rw [hs] at hopen ⊢
        rw [TransferModel.indexOfFile_congr ht] at hrow
        exact rows row fileId hrow hopen (hdone row hd)
      · exact absurd hs hopen
    · obtain ⟨hi', hsent'⟩ := hu i hi r hr hsent
      exact (hw.told i hi' r hr hsent').later hi' hl
  | @reply i r c hst hg hsent hv =>
    subst hv
    refine ⟨hw.waiting, fun hopen row fileId hrow hd => rows row fileId hrow hopen hd,
      fun j hj r' hr' hmem => ?_⟩
    by_cases hji : j = i
    · subst hji
      rw [conns_setConn] at hmem
      rcases hsent r' hr' hmem with rfl | hmem
      · exact (Backed.reply hw hst hg).later hj hl
      · exact (hw.told j hj r' hr' hmem).later hj hl
    · rw [show (w.setConn i c).conns j = w.conns j from Function.update_of_ne hji _ _] at hmem
      exact (hw.told j hj r' hr' hmem).later hj hl
  | @park i hb hv =>
    subst hv
    refine ⟨fun _ row => status_park i w row, fun hopen => absurd hopen (not_or.1 hb).2,
      fun j hj r hr hmem => (hw.told j hj r hr hmem).later hj hl⟩
  | opens hpend hclosed hconns hnext hstatus =>
    refine ⟨fun hp => absurd hclosed hp, fun _ row fileId _ hd => ?_, fun j hj r hr hmem => ?_⟩
    · rw [hstatus] at hd
      exact absurd hd (hw.waiting hpend row)
    · rw [hnext] at hj
      rw [hconns] at hmem
      exact (hw.told j hj r hr hmem).later hj hl
  | @stores i u path f hu hf hfinish hlog hs hp ht hdone hconns hnext =>
    have hserved := h.served i u hu
    have hpend := h.exclusive.resolve_right hserved.open_
    have hrow := TransferModel.entry_of_indexOfFile hserved.found
    refine ⟨fun hpv => absurd (hp.trans hpend) hpv, fun hopen row fileId hfound hd => ?_,
      fun j hj r hr hmem => ?_⟩
    · rw [hs]
      rw [TransferModel.indexOfFile_congr ht] at hfound
      rcases hdone row hd with rfl | hd
      · obtain ⟨a, ha⟩ := h.recalls (.inr hserved.open_)
        have hid : (a.files.getD u.row default).id = fileId :=
          (congrArg Prod.fst (ha.entry u.row)).symm.trans
            (TransferModel.entry_of_indexOfFile hfound).2
        have hfile : (w.conns i).fileId = fileId :=
          hrow.2.symm.trans (TransferModel.entry_of_indexOfFile hfound).2
        refine ⟨i, ?_⟩
        have hfiled : FiledBy body { w with log := v.log } w.sessionId fileId i := {
          born := hserved.born
          head := hserved.head
          path := hserved.path
          session := hserved.session
          file := hfile
          nonempty := hserved.open_
          stored := by
            refine ⟨w.log, u.row, path, [], a, ?_, ha.asked, ?_, hid⟩
            · rw [← hfinish u f hu hf, hlog]
              simp
            · rw [← ha.fileCount]
              exact hrow.1 }
        exact hfiled.later ⟨List.prefix_rfl, hl.born, hl.kept⟩
      · exact rows row fileId hfound hserved.open_ hd
    · rw [hnext] at hj
      rw [hconns] at hmem
      exact (hw.told j hj r hr hmem).later hj hl

/-- Whatever arrives on a connection is the body it is to bring. -/
theorem Filing.step (hw : Filing body w) (h : w.Inv) (he : w.Explained .all) {e : Event}
    (hbody : ∀ i data, e = .readyRead i data → w.Completes i data →
      ∀ u f, (w.heard i data).uploads.lookup i = some u → (w.heard i data).handles i = some f →
        f.written = body i) : Filing body (w.step e) := by
  have hpermits : Permits (filing body) w e := { permits_all w e with
    serves := fun i data hdata hc _ => {
      park := fun _ => trivial
      finish := fun _ _ _ => hbody i data hdata hc
      forget := fun _ _ _ => trivial } }
  have hall : (filing body).Le .all := {
    finish := fun _ _ _ => trivial
    park := fun _ h => h
    reads := fun _ h => h
    forget := fun h => h
    outside := fun h => h
    system := fun h => h
    files := fun _ _ h => h }
  exact ((step_acts h e hpermits).keep (P := fun v => (v.Inv ∧ v.Explained .all) ∧ Filing body v)
    (fun ha hv => ⟨⟨ha.inv hv.1.1, (ha.mono hall).explained hv.1.1 hv.1.2⟩,
      ha.filing hv.1.1 hv.1.2 hv.2⟩) ⟨⟨h, he⟩, hw⟩).2

theorem step_later (h : w.Inv) (e : Event) : Later w (w.step e) := by
  have hkept := (step_acts h e (permits_all w e)).keep (P := fun v => v.Inv ∧ Later w v)
    (fun ha hv => ⟨ha.inv hv.1, hv.2.trans (ha.later hv.1)⟩) ⟨h, .refl w⟩
  exact hkept.2

theorem Start.filing (h : w.Start) : Filing body w where
  waiting hp := absurd h.pending hp
  rows hopen := absurd h.sessionId hopen
  told i hi := by
    rw [h.nextConn] at hi
    exact absurd hi (Nat.not_lt_zero i)

end

end World

end LocalSend
