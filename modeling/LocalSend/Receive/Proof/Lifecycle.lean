import LocalSend.Receive.Proof.Strangers

/-!
# The life cycle of a session

Sessions start and finish by turns, and between a finish and the next start no token and no upload
is left (`World.LifeCycle`). A prepare-upload that comes in while the service is busy leaves
everything but its own connection as it was (`prepare_refused`).
-/

set_option autoImplicit false

namespace LocalSend

/-- The source answers every request. -/
def Crypto.Working (source : Crypto.Random) : Prop := ∀ n, source n ≠ none

theorem Crypto.generateToken_ne_nil {source : Crypto.Random} (h : Crypto.Working source) (n : Nat) :
    Crypto.generateToken source n ≠ [] := by
  unfold Crypto.generateToken Crypto.randomHex Crypto.randomBytes
  cases hs : source n with
  | none => exact absurd hs (h n)
  | some bytes => exact List.cons_ne_nil _ _

/-- A session starts, or it finishes. -/
def Effect.turn? : Effect → Option Bool
  | .started => some true
  | .transferFinished .. => some false
  | _ => none

/-- The sessions that started and finished. -/
def Log.lifecycle (log : List Effect) : List Bool := log.filterMap Effect.turn?

theorem Log.lifecycle_append (log l : List Effect) :
    Log.lifecycle (log ++ l) = Log.lifecycle log ++ Log.lifecycle l := List.filterMap_append

namespace World

section
variable [Qt] {g : Guard} {w v : World} {i : ConnId}

/-- Sessions start and finish by turns, and a finished one leaves nothing. -/
structure LifeCycle (w : World) : Prop where
  alternates : Lib.Alternates (Log.lifecycle w.log)
  open_ : Lib.isOn (Log.lifecycle w.log) = true ↔ w.sessionId ≠ []
  tokens : w.sessionId = [] → w.tokens = ∅

omit [Qt] in
/-- Nothing is said of sessions. -/
theorem LifeCycle.congr (h : w.LifeCycle) {l : List Effect} (hlog : v.log = w.log ++ l)
    (hl : Log.lifecycle l = []) (hs : v.sessionId = w.sessionId) (ht : v.tokens = w.tokens) :
    v.LifeCycle := by
  have hcycle : Log.lifecycle v.log = Log.lifecycle w.log := by
    rw [hlog, Log.lifecycle_append, hl, List.append_nil]
  refine ⟨?_, ?_, fun hn => ht.trans (h.tokens (hs.symm.trans hn))⟩
  · rw [hcycle]
    exact h.alternates
  · rw [hcycle, hs]
    exact h.open_

omit [Qt] in
theorem LifeCycle.write (h : w.LifeCycle) (f : FileId) (data : QByteArray) :
    (w.write i f data).2.LifeCycle := by
  unfold World.write
  split
  · exact h
  · exact h.congr rfl rfl rfl rfl

omit [Qt] in
theorem LifeCycle.setConn (h : w.LifeCycle) (c : HttpConnection) : (w.setConn i c).LifeCycle :=
  h.congr (List.append_nil _).symm rfl rfl rfl

theorem run_random : ∀ (events : List Event) {w : World}, w.Inv →
    (events.foldl step w).random = w.random
  | [], _, _ => rfl
  | e :: events, w, h => by
    have hacts : Acts .all w (w.step e) := step_acts h e (permits_all w e)
    rw [List.foldl_cons, run_random events (hacts.inv h)]
    exact hacts.keep (P := fun u => u.random = w.random) (fun ha hw => ha.around.1.trans hw) rfl

theorem Act.lifeCycle (ha : Act g w v) (h : w.Inv) (hr : Crypto.Working w.random)
    (hw : w.LifeCycle) : v.LifeCycle := by
  have same : ∀ {v : World}, v.log = w.log → v.sessionId = w.sessionId → v.tokens = w.tokens →
      v.LifeCycle := fun hlog => hw.congr (hlog.trans (List.append_nil _).symm) rfl
  cases ha with
  | outside => exact same rfl rfl rfl
  | aside => exact same rfl rfl rfl
  | files => exact same rfl rfl rfl
  | probe => exact same rfl rfl rfl
  | conns => exact same rfl rfl rfl
  | read => exact same rfl rfl rfl
  | complete => exact same rfl rfl rfl
  | reply => exact same rfl rfl rfl
  | connect => exact same rfl rfl rfl
  | transfer => exact same rfl rfl rfl
  | wrote => exact (hw.write _ _).setConn _
  | short => exact (hw.write _ _).setConn _
  | @park k => exact hw.congr rfl rfl rfl rfl
  | prompt => exact hw.congr rfl rfl rfl rfl
  | @openSession k directory hp =>
    obtain ⟨id, d, t, tokens, heq, hid, -⟩ := openSession_eq w k directory
    have hclosed : w.sessionId = [] := h.exclusive.resolve_left (by rw [hp]; exact nofun)
    have hoff : Lib.isOn (Log.lifecycle w.log) ≠ true := fun hon => hw.open_.1 hon hclosed
    have hlog : Log.lifecycle (w.log ++ [Effect.issued id (w.conns k).peerAddress tokens]
        ++ [Effect.started]) = Log.lifecycle w.log ++ [true] := by
      rw [List.append_assoc, Log.lifecycle_append]
      rfl
    have hne : id ≠ [] := by
      rw [hid]
      exact Crypto.generateToken_ne_nil hr _
    rw [heq]
    refine ⟨?_, ?_, fun hn => absurd hn hne⟩
    · exact hlog ▸ hw.alternates.concat hoff
    · refine iff_of_true ?_ hne
      exact (congrArg Lib.isOn hlog).trans (Lib.isOn_concat _ _)
  | release => exact same rfl rfl rfl
  | @enter k row path =>
    obtain ⟨d, hd⟩ := entered_eq w k row path { w.conns k with
      sink := some k
      maxBodyBytes := (w.transfer.entry row).size }
    rw [hd]
    exact hw.congr (l := [Effect.opened k (w.conns k) row, .fileStatus row .transferring])
      (List.append_assoc _ _ _) rfl rfl rfl
  | mark => exact hw.congr rfl rfl rfl rfl
  | @drop k u c error =>
    obtain ⟨d, hd⟩ := dropUpload_eq k u error w
    rw [hd]
    exact hw.congr rfl rfl rfl rfl
  | @settle k u hu =>
    have hs := h.served k u hu
    obtain ⟨f, hf, hp, -⟩ := hs.handle
    obtain ⟨d, ⟨status, error, -, heq⟩ | ⟨path, content, -, -, -, -, heq⟩⟩ :=
      settleUpload_spec (w := { w with uploads := w.uploads.erase k }) k (hs.file.symm ▸ hf) hp
    · rw [heq]
      exact hw.congr rfl rfl rfl rfl
    · rw [heq]
      exact hw.congr (l := [Effect.stored k u.row path content, .fileStatus u.row .done])
        (List.append_assoc _ _ _) rfl rfl rfl
  | remember =>
    unfold rememberPeer
    split
    · exact hw.congr rfl rfl rfl rfl
    · exact hw
  | record =>
    unfold writeHistory
    split
    · exact hw.congr rfl rfl rfl rfl
    · exact hw
  | finish destination hs =>
    have hon : Lib.isOn (Log.lifecycle w.log) = true := hw.open_.2 hs
    have hlog : Log.lifecycle (w.log ++ [Effect.ended] ++ [Effect.transferFinished
        w.transfer.stateName w.transfer.completedCount destination]) =
        Log.lifecycle w.log ++ [false] := by
      rw [List.append_assoc, Log.lifecycle_append]
      rfl
    refine ⟨?_, ?_, fun _ => rfl⟩
    · refine hlog ▸ hw.alternates.concat ?_
      rw [hon]
      decide
    · refine iff_of_false ?_ (not_not.2 rfl)
      change ¬ Lib.isOn (Log.lifecycle (w.log ++ [Effect.ended] ++ [Effect.transferFinished
        w.transfer.stateName w.transfer.completedCount destination])) = true
      rw [hlog, Lib.isOn_concat]
      decide
  | posted => exact hw.congr rfl rfl rfl rfl

omit [Qt] in
theorem Start.lifeCycle (h : w.Start) : w.LifeCycle where
  alternates := by
    rw [h.log]
    exact .nil
  open_ := by
    rw [h.log, h.sessionId]
    exact iff_of_false (by decide) (not_not.2 rfl)
  tokens _ := h.tokens

theorem reached_lifeCycle (h : Lib.Reached system w) (hr : Crypto.Working w.random) :
    w.LifeCycle :=
  reached_keep (P := fun w => Crypto.Working w.random → w.LifeCycle)
    (fun w e _ _ => permits_all w e) (fun _ hs _ => hs.lifeCycle)
    (fun ha hinv hw hr => ha.lifeCycle hinv (ha.around.1 ▸ hr) (hw (ha.around.1 ▸ hr))) h hr

theorem Inv.uploads_empty (h : w.Inv) (hs : w.sessionId = []) : w.uploads = ∅ := by
  refine AList.ext ?_
  cases he : w.uploads.entries with
  | nil => rfl
  | cons e es =>
    have hmem : e.1 ∈ w.uploads := by
      rw [AList.mem_keys, AList.keys, List.keys, he]
      exact List.mem_cons_self
    obtain ⟨u, hu⟩ := Option.isSome_iff_exists.1 (AList.lookup_isSome.2 hmem)
    exact absurd hs (h.served _ _ hu).open_

/-- A prepare-upload is handed to its handler with nothing but its own connection changed. -/
theorem prepare_heard (h : w.Inv) {data : QByteArray} (hc : w.Completes i data)
    (hpath : ((w.heard i data).conns i).path = endpoint Protocol.PathPrepareUpload) :
    Loose i w ∧ Alone i w (w.heard i data) ∧
      w.step (.readyRead i data) = (w.heard i data).handlePrepareUpload i ∧
      ((w.heard i data).conns i).state = .readingBody := by
  have hi := born_of_live hc.1
  obtain ⟨hr, heq⟩ := hc.reads h
  have hother : endpoint Protocol.PathPrepareUpload ≠ endpoint Protocol.PathUpload := by decide
  have hloose : Loose i w := by
    refine ⟨fun hp => ?_, ?_⟩
    · obtain ⟨-, -, hdone, -⟩ := h.parked i hp
      exact absurd (hdone.symm.trans hc.2.1) (by decide)
    · cases hu : w.uploads.lookup i with
      | none => rfl
      | some u =>
        have hs := h.served i u hu
        have hkept := ((hr.acts.kept h).2 i hi).request hs.head
        exact absurd (hpath.symm.trans (hkept.2.2.1.trans hs.path)) hother
  have ha : Alone i w (w.heard i data) :=
    (heard_apart h hc.1 hloose data).resolve_right fun hup => hother (hpath.symm.trans hup.path)
  have hroute : (w.heard i data).onRequestReady i = (w.heard i data).handlePrepareUpload i := by
    unfold onRequestReady
    simp only [hpath]
    rfl
  exact ⟨hloose, ha, heq.trans hroute, hr.state⟩

/-- A prepare-upload that comes in while the service is busy is answered with a refusal, and
nothing but its own connection changes. -/
theorem prepare_refused (h : w.Inv) (hbusy : w.Busy) {data : QByteArray}
    (hc : w.Completes i data)
    (hpath : ((w.heard i data).conns i).path = endpoint Protocol.PathPrepareUpload) :
    ∃ c, w.step (.readyRead i data) = w.setConn i c ∧ c.state = .responded ∧
      (((w.heard i data).conns i).connected = true →
        c.sent = ((w.heard i data).conns i).sent ++
          [.response ⟨if w.settings.receiveEnabled = true then 409 else 403, jsonType,
            ((w.heard i data).conns i).extraHeaders, []⟩]) := by
  obtain ⟨hloose, ha, heq, hreading⟩ := prepare_heard h hc hpath
  obtain ⟨c, hcset, hst, hsent⟩ := (hloose.alone ha).respond
    (if (w.heard i data).settings.receiveEnabled = true then 409 else 403) [] jsonType
  obtain ⟨d, hd⟩ := ha
  refine ⟨c, ?_, hst, fun hconn => ?_⟩
  · rw [heq, handlePrepareUpload_busy (hbusy.alone ⟨d, hd⟩)]
    refine hcset.trans ?_
    rw [hd, setConn_setConn]
  · rw [hsent (by rw [hreading]; exact State.noConfusion), if_pos hconn, hd]
    rfl

/-- In every state of every run: no request is pending while a session is open; a prepare-upload
that comes in then is refused, and changes nothing; sessions start and finish by turns; and a
finished one leaves no tokens and no uploads. -/
theorem session_life_cycle (h : Lib.Reached system w) (hr : Crypto.Working w.random) :
    (w.pending = none ∨ w.sessionId = []) ∧
    (∀ i data, w.Busy → w.Completes i data →
      ((w.heard i data).conns i).path = endpoint Protocol.PathPrepareUpload →
      ∃ c, w.step (.readyRead i data) = w.setConn i c ∧ c.state = .responded ∧
        (((w.heard i data).conns i).connected = true →
          c.sent = ((w.heard i data).conns i).sent ++
            [.response ⟨if w.settings.receiveEnabled = true then 409 else 403, jsonType,
              ((w.heard i data).conns i).extraHeaders, []⟩])) ∧
    Lib.Alternates (Log.lifecycle w.log) ∧
    (Lib.isOn (Log.lifecycle w.log) = true ↔ w.sessionId ≠ []) ∧
    (w.sessionId = [] → w.tokens = ∅ ∧ w.uploads = ∅) := by
  have hinv := reached_inv h
  have hcycle := reached_lifeCycle h hr
  exact ⟨hinv.exclusive, fun i data hbusy hc hpath => prepare_refused hinv hbusy hc hpath,
    hcycle.alternates, hcycle.open_, fun hs => ⟨hcycle.tokens hs, hinv.uploads_empty hs⟩⟩

end

/-! ## A session that is over -/

section

local instance finishedQt : Qt := Ascii.qt [(Ascii.json oneFile, oneFile)] []

theorem hello_finished : ∃ w : World, Log.lifecycle w.log = [true, false] ∧
    Lib.Alternates (Log.lifecycle w.log) ∧ w.tokens = ∅ ∧ w.uploads = ∅ := by
  have hreached : Lib.Reached system ((helloEvents oneFile).foldl step helloStart) :=
    Lib.ReachedBy.run_any _ (.start helloStart_start)
  have hworking : Crypto.Working ((helloEvents oneFile).foldl step helloStart).random := by
    rw [run_random _ helloStart_start.inv]
    exact fun n => Option.some_ne_none _
  have hlog : Log.lifecycle ((helloEvents oneFile).foldl step helloStart).log = [true, false] := by
    decide +kernel
  have hover : ((helloEvents oneFile).foldl step helloStart).sessionId = [] := by decide +kernel
  obtain ⟨-, -, halternates, -, hempty⟩ := session_life_cycle hreached hworking
  exact ⟨_, hlog, halternates, hempty hover⟩

end

end World

end LocalSend
