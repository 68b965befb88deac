import LocalSend.Http.Proof.Framed
import LocalSend.Receive.Proof.Files

/-!
# What has come on a connection

`received i w events` is what the service has read of the connection `i` in a run from `w`. As long
as `i` reads a body, what has been written to the file of its upload is what that stream delivers
(`Hears`): nobody else touches the decoder of `i` or its file (`Aloof`), and `i` itself reads by
the rule.
-/

set_option autoImplicit false

namespace LocalSend

theorem HttpConnection.Unread.unmoved {c c' : HttpConnection} (h : c.Unread c') : c.Unmoved c' :=
  ⟨⟨h.buffer, h.bodyReceived, h.chunked, h.chunkState, h.chunkRemaining, h.contentLength⟩,
    h.headers, h.bodyComplete, h.state⟩

namespace World

section
variable [Qt] {g : Guard} {w v : World} {i : ConnId} {b d : QByteArray}

/-! ## Whoever does not read -/

/-- The decoder of `i` and the file of its upload were left alone, or the upload has ended. -/
structure Aloof (i : ConnId) (w v : World) : Prop where
  unread : (w.conns i).Unread (v.conns i)
  upload : ∀ u, v.uploads.lookup i = some u → w.uploads.lookup i = some u ∧ v.handles i = w.handles i

theorem Act.aloof (ha : Act g w v) (h : w.Inv) (hi : i < w.nextConn) (hr : ¬ g.reads i) :
    Aloof i w v := by
  have same : ∀ {v : World}, v.conns i = w.conns i → v.uploads = w.uploads →
      v.handles i = w.handles i → Aloof i w v := by
    intro v hc hu hh
    refine ⟨?_, fun u hx => ⟨by rwa [← hu], hh⟩⟩
    rw [hc]
    exact .refl _
  have other : ∀ {k : ConnId}, g.reads k → i ≠ k := by
    rintro k hk rfl
    exact hr hk
  have one : ∀ {k : ConnId} {c : HttpConnection}, (k = i → (w.conns i).Unread c) →
      Aloof i w (w.setConn k c) := by
    intro k c hc
    refine ⟨?_, fun u hu => ⟨hu, rfl⟩⟩
    by_cases hk : i = k
    · subst hk
      rw [conns_setConn]
      exact hc rfl
    · rw [show (w.setConn k c).conns i = w.conns i from Function.update_of_ne hk _ _]
      exact .refl _
  -- the upload of `k` leaves the table, and its file is closed
  have ended : ∀ {v : World} {k : ConnId} {u : Upload} {c : HttpConnection},
      w.uploads.lookup k = some u → v.uploads = w.uploads.erase k →
      v.handles = Function.update w.handles u.file none → v.conns = Function.update w.conns k c →
      (w.conns k).Unread c → Aloof i w v := by
    intro v k u c hu hup hh hc hun
    refine ⟨?_, fun x hx => ?_⟩
    · rw [hc]
      by_cases hk : i = k
      · subst hk
        rw [Function.update_self]
        exact hun
      · rw [Function.update_of_ne hk]
        exact .refl _
    · obtain ⟨hk, hw⟩ := lookup_of_erase hup hx
      rw [hh, (h.served k u hu).file, Function.update_of_ne hk]
      exact ⟨hw, rfl⟩
  cases ha with
  | conns hidle => exact ⟨(hidle i).unread, fun u hu => ⟨hu, rfl⟩⟩
  | read hk => exact one fun he => absurd he.symm (other hk)
  | complete hk => exact one fun he => absurd he.symm (other hk)
  | reply _ _ hidle =>
    refine one ?_
    rintro rfl
    exact .of_reply hidle
  | connect => exact same (Function.update_of_ne (Nat.ne_of_lt hi) _ _) rfl rfl
  | @wrote k f data hk hb hsink =>
    obtain ⟨rfl, u, hu⟩ := h.streaming k f hsink hb
    obtain ⟨file, hf, -⟩ := (h.served f u hu).handle
    rw [write_eq hf]
    exact same (Function.update_of_ne (other hk) _ _) rfl (Function.update_of_ne (other hk) _ _)
  | @short k f data c hk hb hsink =>
    obtain ⟨rfl, u, hu⟩ := h.streaming k f hsink hb
    obtain ⟨file, hf, -⟩ := (h.served f u hu).handle
    rw [write_eq hf]
    exact same (Function.update_of_ne (other hk) _ _) rfl (Function.update_of_ne (other hk) _ _)
  | @openSession k directory =>
    obtain ⟨id, n, t, tokens, heq, -⟩ := openSession_eq w k directory
    rw [heq]
    exact same rfl rfl rfl
  | @enter k row path hk =>
    obtain ⟨disk, hd⟩ := entered_eq w k row path { w.conns k with
      sink := some k
      maxBodyBytes := (w.transfer.entry row).size }
    rw [hd]
    refine ⟨?_, fun u hu => ?_⟩
    · change (w.conns i).Unread (Function.update w.conns k _ i)
      rw [Function.update_of_ne (other hk)]
      exact .refl _
    · have hu : (w.uploads.insert k ⟨row, k, path ++ PartSuffix, path⟩).lookup i = some u := hu
      rw [AList.lookup_insert_ne (other hk)] at hu
      exact ⟨hu, Function.update_of_ne (other hk) _ _⟩
  | @drop k u c error hu hidle =>
    obtain ⟨disk, hd⟩ := dropUpload_eq k u error w
    rw [hd]
    exact ended hu rfl rfl rfl hidle.unread
  | @settle k u hu =>
    obtain ⟨disk, t, l, heq⟩ := settleUpload_eq k u { w with uploads := w.uploads.erase k }
    rw [heq]
    exact ended hu rfl rfl (Function.update_eq_self _ _).symm (.refl _)
  | remember =>
    unfold rememberPeer
    split <;> exact same rfl rfl rfl
  | record =>
    unfold writeHistory
    split <;> exact same rfl rfl rfl
  | _ => exact same rfl rfl rfl

/-! ## The connection that reads -/

/-- Of the upload of `i`, should there be one, `d` is what was written. -/
def Delivered (i : ConnId) (d : QByteArray) (w : World) : Prop :=
  ∀ u, w.uploads.lookup i = some u → ∃ h, w.handles i = some h ∧ h.written = d

/-- Nothing has been written when an upload is let in. -/
theorem handleUploadHeaders_delivered (hi : i < w.nextConn)
    (hst : ((w.handleUploadHeaders i).conns i).state ≠ .responded) :
    Delivered i [] (w.handleUploadHeaders i) := by
  have answered : ∀ {v : World} {status}, v.nextConn = w.nextConn →
      ((v.respond i status).conns i).state ≠ .responded → Delivered i [] (v.respond i status) :=
    fun hv hne => absurd (respond_unread (by rw [hv]; exact hi) _ _ _).2 hne
  revert hst
  unfold handleUploadHeaders
  extract_lets sessionId fileId token
  split
  · exact answered rfl
  split
  · exact answered rfl
  split
  · exact answered rfl
  rcases w.transfer.indexOfFile fileId with - | row
  · exact answered rfl
  simp only
  split
  · exact answered rfl
  split
  · exact answered rfl
  obtain ⟨ok, disk, hopen⟩ := openFile_eq
    (w.reserveFilePath w.sessionDirectory (w.transfer.entry row).fileName ++ PartSuffix) w
  rw [hopen]
  cases ok
  · exact answered rfl
  simp only
  unfold Port.streamBodyTo
  extract_lets w₂
  split
  · exact answered rfl
  · intro _ u hu
    have hup : w₂.uploads.lookup i = some _ := AList.lookup_insert _
    obtain rfl := Option.some.inj (hup.symm.trans hu)
    exact ⟨_, Function.update_self _ _ _, rfl⟩

theorem host_follows (h : w.Inv) (hl : w.live i = true) :
    (host i).Follows (Reading i w) (Delivered i) where
  answered {data s} c status payload contentType hI :=
    (respond_unread (w := s.setConn i c) (hI.1.born h (born_of_live hl)) _ _ _).2
  answeredShort {data s} f hI := by
    refine (respond_unread ?_ 500 [] jsonType).2
    change i < (s.write i f data).2.nextConn
    rw [nextConn_write]
    exact hI.1.born h (born_of_live hl)
  announced := by
    intro s c hI hread hm
    obtain ⟨-, hinv, hlive, hb, hnew⟩ := hI.head h hl hread
    have hun := (onHeadersReady_heads hinv hlive hb hnew).unread.unmoved
    rw [conns_setConn] at hun
    exact ⟨hun.same, hun.state⟩
  begins := by
    intro s c hI hread hst
    obtain ⟨-, -, hlive, -, hnew⟩ := hI.head h hl hread
    have hne : (((s.setConn i c).onHeadersReady i).conns i).state ≠ .responded :=
      fun hres => State.noConfusion (hst.symm.trans hres)
    change Delivered i [] ((s.setConn i c).onHeadersReady i)
    unfold onHeadersReady at hne ⊢
    split
    · rename_i hpath
      rw [if_pos hpath] at hne
      exact handleUploadHeaders_delivered (born_of_live hlive) hne
    · intro u hu
      cases hnew.symm.trans hu
  set _ hd := hd
  bodyProgress {d s} hd := by
    change Delivered i d (s.onBodyProgress i)
    unfold onBodyProgress
    split <;> exact hd
  keep := by
    intro d data s hI hb hsink hd u hu
    have hsome := ((hI.1.acts.inv h).served i u hu).sink
    cases hsome.symm.trans hsink
  write := by
    intro d data s f hI hb hsink hw hd u hu
    have hinv := hI.1.acts.inv h
    obtain ⟨rfl, x, hx⟩ := hinv.streaming i f hsink hb
    obtain ⟨file, hf, hwritten⟩ := hd x hx
    have hw : (s.write f f data).1 = data.length := hw
    rw [write_eq hf] at hw
    change ∃ file, (s.write f f data).2.handles f = some file ∧ _
    rw [write_eq hf]
    refine ⟨_, Function.update_self _ _ _, ?_⟩
    rw [hwritten, take_of_full hw]

/-! ## Runs -/

/-- What an event brings to `i`. -/
def brings (i : ConnId) (w : World) : Event → QByteArray
  | .readyRead j data => if j = i ∧ w.live i = true then data else []
  | _ => []

/-- What has come on `i` in a run. -/
def received (i : ConnId) : World → List Event → QByteArray
  | _, [] => []
  | w, e :: events => w.brings i e ++ received i (w.step e) events

theorem received_concat (i : ConnId) (e : Event) : ∀ (events : List Event) (w : World),
    received i w (events ++ [e]) = received i w events ++ (events.foldl step w).brings i e
  | [], w => List.append_nil _
  | e' :: events, w => by
    change w.brings i e' ++ received i (w.step e') (events ++ [e]) =
      w.brings i e' ++ received i (w.step e') events ++ _
    rw [received_concat i e events, List.append_assoc]
    rfl

/-- `b` has come on `i`, and as long as it reads a body what `b` delivers was written. -/
structure Hears (i : ConnId) (b : QByteArray) (w : World) : Prop where
  tracked : (port i).Tracked .lenient (Delivered i) b [] w
  whole : (w.conns i).bodyComplete = true → (w.conns i).state ≠ .readingHeaders

/-- `i` has done with reading. -/
theorem hears_of_not_reading (hc : (w.conns i).state ≠ .readingHeaders)
    (hb : ¬ (w.conns i).InBody) : Hears i b w :=
  ⟨⟨fun hs => absurd hs hc, fun hin => absurd hin hb⟩, fun _ => hc⟩

theorem Hears.aloof (h : Hears i b w) (ha : Aloof i w v) : Hears i b v where
  tracked := h.tracked.unmoved ha.unread.unmoved fun d hd u hu => by
    obtain ⟨hw, hh⟩ := ha.upload u hu
    obtain ⟨file, hf, hwritten⟩ := hd u hw
    exact ⟨file, hh.trans hf, hwritten⟩
  whole hcomp hs := by
    have hst := ha.unread.state.resolve_right fun hres => State.noConfusion (hs.symm.trans hres)
    exact h.whole (ha.unread.bodyComplete.symm.trans hcomp) (hst.symm.trans hs)

/-- The request of `i` is in: it is what its stream says, and so is the file of its upload. -/
theorem Hears.completes (hears : Hears i b w) (h : w.Inv) {data : QByteArray}
    (hc : w.Completes i data) : ∃ d, Judge.lenient.scan (b ++ data) = ⟨.complete, d⟩ ∧
      Delivered i d (w.heard i data) := by
  obtain ⟨hl, hfresh, hdone⟩ := hc
  have hst : (w.conns i).state ≠ .responded := by
    intro hres
    unfold heard at hdone
    rw [Host.onReadyRead_late (host i).mute data (.inl hres)] at hdone
    change (World.conns (World.setConn i _ _) i).bodyComplete = true at hdone
    rw [conns_setConn] at hdone
    exact absurd (hfresh.symm.trans hdone) (by decide)
  rcases (host_rule h hl).onReadyRead_tracked (host_follows h hl) Judge.lenient_sound hears.tracked
    data hst hfresh (.feed hfresh data) with ⟨heq, hQ, -⟩ | ⟨t, d, -, -, hscan, hr, -⟩
  · rw [show w.heard i data = _ from heq.symm, hQ.2] at hdone
    cases hdone
  · obtain ⟨hd, -, hscan⟩ := hscan.resolve_left (Judge.not_misreads_lenient _)
    refine ⟨d, hscan, ?_⟩
    rw [show w.heard i data = _ from hr]
    exact hd

theorem Hears.read (hears : Hears i b w) (h : w.Inv) (hl : w.live i = true) (data : QByteArray) :
    Hears i (b ++ data) (w.step (.readyRead i data)) := by
  have hstep : w.step (.readyRead i data) = (host i).onReadyRead data w := if_pos hl
  by_cases hlate : (w.conns i).state = .responded ∨ (w.conns i).bodyComplete = true
  · rw [hstep, Host.onReadyRead_late (host i) data hlate]
    have hhead : (w.conns i).state ≠ .readingHeaders := by
      rcases hlate with hres | hcomp
      · rw [hres]
        exact State.noConfusion
      · exact hears.whole hcomp
    have hbody : ¬ (w.conns i).InBody := by
      rintro ⟨hst, hcomp⟩
      rcases hlate with hres | hcomp'
      · exact State.noConfusion (hst.symm.trans hres)
      · exact absurd (hcomp.symm.trans hcomp') (by decide)
    refine hears_of_not_reading ?_ ?_
    · change (World.conns (World.setConn i _ _) i).state ≠ _
      rw [conns_setConn]
      exact hhead
    · change ¬ (World.conns (World.setConn i _ _) i).InBody
      rw [conns_setConn]
      exact hbody
  obtain ⟨hst, hfresh⟩ := not_or.1 hlate
  rw [Bool.not_eq_true] at hfresh
  rcases (host_rule h hl).onReadyRead_tracked (host_follows h hl) Judge.lenient_sound hears.tracked
    data hst hfresh (.feed hfresh data) with ⟨-, hQ, hrest⟩ | ⟨t, d, -, -, -, hr, -⟩
  · rw [hstep]
    exact ⟨hrest.toTracked, fun hcomp => absurd (hQ.2.symm.trans hcomp) (by decide)⟩
  · -- the request is in, and its body is over
    have hc : w.Completes i data := by
      refine ⟨hl, hfresh, ?_⟩
      rw [show w.heard i data = _ from hr]
      change (World.conns (World.setConn i _ _) i).bodyComplete = true
      rw [conns_setConn]
      rfl
    obtain ⟨hreads, heq⟩ := hc.reads h
    have hv : (w.heard i data).Inv := hreads.acts.inv h
    have hi : i < (w.heard i data).nextConn := hreads.toNear.born h (born_of_live hl)
    have hacts : Acts .all (w.heard i data) ((w.heard i data).onRequestReady i) :=
      onRequestReady_acts hv hi hreads.state hreads.complete
        ⟨fun _ => trivial, fun _ _ _ => trivial, fun _ _ _ => trivial⟩
    have hkept := (hacts.kept hv).2 i hi
    rw [heq]
    refine hears_of_not_reading (hkept.request ?_).1 fun hin => ?_
    · rw [hreads.state]
      exact State.noConfusion
    · exact absurd (hin.2.symm.trans (hkept.complete hreads.complete).1) (by decide)

/-- Connections come from outside only. -/
theorem Act.nextConn (ha : Act g w v) :
    v.nextConn = w.nextConn ∨
      g.outside ∧ ∃ address certificate, v = w.connect address certificate := by
  cases ha with
  | connect hg => exact .inr ⟨hg, _, _, rfl⟩
  | wrote => exact .inl (nextConn_write _ _ _ _)
  | short => exact .inl (nextConn_write _ _ _ _)
  | @openSession k directory =>
    obtain ⟨id, n, t, tokens, heq, -⟩ := openSession_eq w k directory
    rw [heq]
    exact .inl rfl
  | @enter k row path =>
    obtain ⟨disk, hd⟩ := entered_eq w k row path { w.conns k with
      sink := some k
      maxBodyBytes := (w.transfer.entry row).size }
    rw [hd]
    exact .inl rfl
  | @drop k u c error =>
    obtain ⟨disk, hd⟩ := dropUpload_eq k u error w
    rw [hd]
    exact .inl rfl
  | @settle k u =>
    obtain ⟨disk, t, l, heq⟩ := settleUpload_eq k u { w with uploads := w.uploads.erase k }
    rw [heq]
    exact .inl rfl
  | remember =>
    unfold rememberPeer
    split <;> exact .inl rfl
  | record =>
    unfold writeHistory
    split <;> exact .inl rfl
  | _ => exact .inl rfl

theorem Acts.nextConn (ha : Acts g w v) (hg : ¬ g.outside) : v.nextConn = w.nextConn := by
  induction ha with
  | refl => rfl
  | tail _ ha ih => exact (ha.nextConn.resolve_right fun hx => hg hx.1).trans ih

/-- Any other event brings no new connection. -/
theorem step_nextConn (h : w.Inv) {e : Event} (he : ∀ address certificate, e ≠ .connect address certificate) :
    (w.step e).nextConn = w.nextConn := by
  have starts : ∀ v : World, v.startListening.nextConn = v.nextConn := by
    intro v
    unfold startListening
    split
    · rfl
    · extract_lets server port
      split <;> rfl
  have stops : ∀ v : World, v.stopListening.nextConn = v.nextConn := by
    intro v
    unfold stopListening
    split
    · rfl
    · have hfinish : Acts .quiet v (v.finishSession (str "cancelled")) := finishSession_acts _ v
      exact hfinish.nextConn not_false
  by_cases hout : e.outside = true
  · cases e with
    | connect address certificate => exact absurd rfl (he address certificate)
    | startListening => exact starts w
    | stopListening => exact stops w
    | setPort port =>
      simp only [step]
      unfold World.setPort onSettingsChanged
      split
      · rfl
      · split
        · rfl
        · exact (starts _).trans (stops _)
    | setReceiveEnabled enabled =>
      simp only [step]
      unfold World.setReceiveEnabled
      split
      · rfl
      · extract_lets w₁
        split
        · exact starts w₁
        · exact stops w₁
    | _ => first | rfl | cases hout
  · refine (step_acts (g := { Guard.all with outside := False }) h e { permits_all w e with
      outside := fun ho => absurd ho hout
      serves := fun i data hdata hc hr => { (permits_all w e).serves i data hdata hc hr with } }).nextConn
      not_false

/-- And nothing has come on a connection that is not there yet. -/
structure Knows (i : ConnId) (b : QByteArray) (w : World) : Prop where
  born : i < w.nextConn → Hears i b w
  unborn : w.nextConn ≤ i → b = []

theorem Act.knows (ha : Act g w v) (h : w.Inv) (hr : ¬ g.reads i) (hw : Knows i b w) :
    Knows i b v := by
  by_cases hi : i < w.nextConn
  · have hborn : i < v.nextConn := Nat.lt_of_lt_of_le hi (ha.kept h).1
    exact ⟨fun _ => (hw.born hi).aloof (ha.aloof h hi hr), fun hle => absurd hborn (Nat.not_lt.2 hle)⟩
  obtain rfl := hw.unborn (Nat.le_of_not_lt hi)
  refine ⟨fun hlt => ?_, fun _ => rfl⟩
  rcases ha.nextConn with heq | ⟨-, address, certificate, rfl⟩
  · exact absurd (Nat.lt_of_lt_of_eq hlt heq) hi
  · obtain rfl : i = w.nextConn := Nat.le_antisymm (Nat.le_of_lt_succ hlt) (Nat.le_of_not_lt hi)
    obtain ⟨c, hget⟩ : ∃ c, (w.connect address certificate).conns w.nextConn =
        .accepted w.now address c := ⟨_, Function.update_self _ _ _⟩
    have hport : (port w.nextConn).get (w.connect address certificate) = .accepted w.now address c :=
      hget
    refine ⟨⟨fun _ => ?_, fun hb => ?_⟩, fun hcomp => ?_⟩
    · rw [hport]
      exact ⟨⟨rfl, rfl, rfl⟩, rfl⟩
    · rw [hport] at hb
      exact State.noConfusion hb.1
    · rw [hget] at hcomp
      cases hcomp

/-- Everybody reads but `i`. -/
def othersRead (i : ConnId) : Guard := { Guard.all with reads := (· ≠ i) }

/-- An event brings `i` a segment, or is one in which `i` reads nothing. -/
theorem brings_cases (i : ConnId) (w : World) (e : Event) :
    (∃ data, e = .readyRead i data ∧ w.live i = true ∧ w.brings i e = data) ∨
      w.brings i e = [] ∧ (w.step e = w ∨ Permits (othersRead i) w e) := by
  by_cases hread : ∃ data, e = .readyRead i data
  · obtain ⟨data, rfl⟩ := hread
    by_cases hl : w.live i = true
    · exact .inl ⟨data, rfl, hl, if_pos ⟨rfl, hl⟩⟩
    · exact .inr ⟨if_neg fun hx => hl hx.2, .inl (if_neg hl)⟩
  · refine .inr ⟨?_, .inr { permits_all w e with
      reads := by
        rintro j data rfl rfl
        exact hread ⟨data, rfl⟩
      serves := fun j data he hc hr => { (permits_all w e).serves j data he hc hr with } }⟩
    cases e with
    | readyRead j data =>
      refine if_neg fun hx => hread ⟨data, ?_⟩
      rw [hx.1]
    | _ => rfl

theorem Knows.step (hw : Knows i b w) (h : w.Inv) (e : Event) :
    Knows i (b ++ w.brings i e) (w.step e) := by
  rcases brings_cases i w e with ⟨data, rfl, hl, hbrings⟩ | ⟨hbrings, heq | hpermits⟩
  · have hi := born_of_live hl
    have hborn : i < (w.step (.readyRead i data)).nextConn :=
      Nat.lt_of_lt_of_le hi (Acts.kept (step_acts h _ (permits_all w _)) h).1
    rw [hbrings]
    exact ⟨fun _ => (hw.born hi).read h hl data, fun hle => absurd hborn (Nat.not_lt.2 hle)⟩
  · rw [hbrings, List.append_nil, heq]
    exact hw
  · rw [hbrings, List.append_nil]
    exact ((step_acts h e hpermits).keep (P := fun v => v.Inv ∧ Knows i b v) (fun ha hv =>
      ⟨ha.inv hv.1, ha.knows (g := othersRead i) hv.1 (not_not.2 rfl) hv.2⟩) ⟨h, hw⟩).2

theorem run_knows (hs : w.Start) (i : ConnId) (events : List Event) :
    Knows i (received i w events) (events.foldl step w) := by
  induction events using List.reverseRecOn with
  | nil =>
    refine ⟨fun hi => absurd hi ?_, fun _ => rfl⟩
    rw [List.foldl_nil, hs.nextConn]
    exact Nat.not_lt_zero i
  | append_singleton events e ih =>
    rw [received_concat, List.foldl_append, List.foldl_cons, List.foldl_nil]
    exact ih.step (reached_inv (Lib.ReachedBy.run_any (S := system) events (.start hs))) e

end

end World

end LocalSend
