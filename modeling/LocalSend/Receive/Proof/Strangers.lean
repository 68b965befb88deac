import LocalSend.Receive.Proof.Alone

/-!
# What strangers can do to a session

A request from another address than that of the prepare-upload leaves the session as it is, but for
a `/cancel`: that ends whatever is going on, unless it names another session
(`stranger_disturbs_iff`).
-/

set_option autoImplicit false

namespace LocalSend

namespace World

variable {w v : World} {i : ConnId}

/-- The request that is pending, the session, and what is transferred in it are the same. -/
structure Undisturbed (w v : World) : Prop where
  pending : v.pending = w.pending
  sessionId : v.sessionId = w.sessionId
  sessionAddress : v.sessionAddress = w.sessionAddress
  tokens : v.tokens = w.tokens
  uploads : v.uploads = w.uploads
  transfer : v.transfer = w.transfer

theorem Undisturbed.refl (w : World) : Undisturbed w w := ⟨rfl, rfl, rfl, rfl, rfl, rfl⟩

theorem Undisturbed.symm (h : Undisturbed w v) : Undisturbed v w where
  pending := h.pending.symm
  sessionId := h.sessionId.symm
  sessionAddress := h.sessionAddress.symm
  tokens := h.tokens.symm
  uploads := h.uploads.symm
  transfer := h.transfer.symm

theorem Undisturbed.trans {u : World} (h : Undisturbed w v) (h' : Undisturbed v u) :
    Undisturbed w u where
  pending := h'.pending.trans h.pending
  sessionId := h'.sessionId.trans h.sessionId
  sessionAddress := h'.sessionAddress.trans h.sessionAddress
  tokens := h'.tokens.trans h.tokens
  uploads := h'.uploads.trans h.uploads
  transfer := h'.transfer.trans h.transfer

theorem Alone.undisturbed (h : Alone i w v) : Undisturbed w v := by
  obtain ⟨c, rfl⟩ := h
  exact ⟨rfl, rfl, rfl, rfl, rfl, rfl⟩

/-- Where the prepare-upload that is pending, or became the session, came from. -/
def ownerAddress (w : World) : QString :=
  match w.pending with
  | some i => (w.conns i).peerAddress
  | none => w.sessionAddress

section
variable [Qt]

/-- The segment completes a `/cancel` that the service heeds: a request is pending, or the session
is the one that is named, if one is. -/
def Cancels (w : World) (i : ConnId) (data : QByteArray) : Prop :=
  w.Completes i data ∧ ((w.heard i data).conns i).path = endpoint Protocol.PathCancel ∧
    (w.pending ≠ none ∨ ((w.heard i data).conns i).queryValue (str "sessionId") = [] ∨
      ((w.heard i data).conns i).queryValue (str "sessionId") = w.sessionId)

omit [Qt] in
theorem ownerAddress_pending (hp : w.pending = some i) :
    w.ownerAddress = (w.conns i).peerAddress := by
  unfold ownerAddress
  rw [hp]

theorem Inv.ownerAddress_session (h : w.Inv) (hs : w.sessionId ≠ []) :
    w.ownerAddress = w.sessionAddress := by
  unfold ownerAddress
  rw [h.exclusive.resolve_right hs]

/-- Nothing hangs on a stranger's connection. -/
theorem Inv.loose (h : w.Inv) (hne : (w.conns i).peerAddress ≠ w.ownerAddress) : Loose i w where
  pending hp := hne (ownerAddress_pending hp).symm
  upload := by
    cases hu : w.uploads.lookup i with
    | none => rfl
    | some u =>
      have hs := h.served i u hu
      exact absurd (hs.address.trans (h.ownerAddress_session hs.open_).symm) hne

theorem heard_alone (h : w.Inv) (hl : w.live i = true)
    (hne : (w.conns i).peerAddress ≠ w.ownerAddress) (data : QByteArray) :
    Alone i w (w.heard i data) := by
  rcases heard_apart h hl (h.loose hne) data with ha | hup
  · exact ha
  · exact absurd (hup.address.trans (h.ownerAddress_session hup.open_).symm) hne

/-! ## The requests of a loose connection -/

theorem registerPeer_undisturbed (payload : QJsonObject) (address : QString) (w : World) :
    Undisturbed w (w.registerPeer payload address).2 := by
  obtain ⟨devices, hdev⟩ := registerPeer_eq payload address w
  rw [hdev]
  exact ⟨rfl, rfl, rfl, rfl, rfl, rfl⟩

/-- While somebody else is busy with the service, a prepare-upload is turned away. -/
theorem handlePrepareUpload_busy (hb : w.Busy) :
    w.handlePrepareUpload i = w.respond i (if w.settings.receiveEnabled = true then 409 else 403) := by
  unfold handlePrepareUpload
  extract_lets address
  by_cases hon : w.settings.receiveEnabled = true
  · rw [if_neg (not_not.2 hon), if_pos (show w.pending ≠ none ∨ w.sessionId ≠ [] from hb), if_pos hon]
  · rw [if_pos hon, if_neg hon]

theorem handleUploadFinished_alone (hl : Loose i w) : Alone i w (w.handleUploadFinished i) := by
  unfold handleUploadFinished
  rw [hl.upload]
  simp only
  split
  · exact .refl i w
  · exact hl.respond_alone _ _ _

theorem finishSession_sessionId (status : QString) (h : w.sessionId ≠ []) :
    (w.finishSession status).sessionId = [] := by
  unfold finishSession
  extract_lets hadSession w₁ w₂ w₃
  rw [if_neg (fun hnone => hnone.1 h), if_neg (not_not.2 h)]
  rfl

/-- A `/cancel` that is not heeded changes nothing, and one that is ends what is going on. -/
theorem handleCancel_undisturbed_iff (h : w.Inv) (hbusy : w.Busy) (hl : Loose i w) :
    Undisturbed w (w.handleCancel i) ↔ ¬ (w.pending ≠ none ∨
      (w.conns i).queryValue (str "sessionId") = [] ∨
      (w.conns i).queryValue (str "sessionId") = w.sessionId) := by
  obtain ⟨c, hc, -⟩ := hl.respond 200 [] jsonType
  have hc : w.respond i 200 = w.setConn i c := hc
  unfold handleCancel
  extract_lets sessionId w₁
  have hw₁ : w₁ = w.setConn i c := hc
  rw [hw₁]
  change Undisturbed w (if w.pending ≠ none ∧ w.sessionId = [] then _ else
    if w.sessionId ≠ [] ∧ (sessionId = [] ∨ sessionId = w.sessionId) then _ else _) ↔ _
  split
  · rename_i hp
    exact ⟨fun hu => absurd hu.pending.symm hp.1, fun hn => absurd (.inl hp.1) hn⟩
  rename_i hp
  have hsession : w.sessionId ≠ [] := by
    rcases hbusy with hb | hb
    · exact fun hs => hp ⟨hb, hs⟩
    · exact hb
  have hpending : w.pending = none := h.exclusive.resolve_right hsession
  split
  · rename_i hnamed
    refine ⟨fun hu => ?_, fun hn => absurd (.inr hnamed.2) hn⟩
    have hend := finishSession_sessionId (w := w.setConn i c) (str "cancelled") hsession
    exact absurd (hu.sessionId.symm.trans hend) hsession
  · rename_i hnamed
    refine ⟨fun _ hn => ?_, fun _ => Alone.undisturbed ⟨c, rfl⟩⟩
    rcases hn with hn | hn
    · exact hn hpending
    · exact hnamed ⟨hsession, hn⟩

/-- What a loose connection is answered changes nothing of the session, but for a `/cancel`. -/
theorem onRequestReady_undisturbed (hbusy : w.Busy) (hl : Loose i w)
    (hpath : (w.conns i).path ≠ endpoint Protocol.PathCancel) :
    Undisturbed w (w.onRequestReady i) := by
  unfold onRequestReady
  extract_lets path
  split
  · exact (hl.respond_alone _ _ _).undisturbed
  split
  · have hregister := registerPeer_undisturbed (w.conns i).jsonBody (w.conns i).peerAddress w
    obtain ⟨devices, hdev⟩ := registerPeer_eq (w.conns i).jsonBody (w.conns i).peerAddress w
    have hl' : Loose i (w.registerPeer (w.conns i).jsonBody (w.conns i).peerAddress).2 := by
      rw [hdev]
      exact ⟨hl.pending, hl.upload⟩
    exact hregister.trans (hl'.respond_alone _ _ _).undisturbed
  split
  · rw [handlePrepareUpload_busy hbusy]
    exact (hl.respond_alone _ _ _).undisturbed
  split
  · exact (handleUploadFinished_alone hl).undisturbed
  exact (hl.respond_alone _ _ _).undisturbed

omit [Qt] in
theorem Busy.alone (h : w.Busy) (ha : Alone i w v) : v.Busy := by
  obtain ⟨c, rfl⟩ := ha
  exact h

/-- What a segment from another address does to the session: nothing, unless it completes a
`/cancel` that is heeded. -/
theorem stranger_disturbs_iff (h : Lib.Reached system w) (hbusy : w.Busy)
    (hne : (w.conns i).peerAddress ≠ w.ownerAddress) (data : QByteArray) :
    Undisturbed w (w.step (.readyRead i data)) ↔ ¬ w.Cancels i data := by
  have hinv := reached_inv h
  by_cases hlive : w.live i = true
  · have ha := heard_alone hinv hlive hne data
    by_cases hc : w.Completes i data
    · obtain ⟨hr, heq⟩ := hc.reads hinv
      rw [heq]
      have hl := (hinv.loose hne).alone ha
      have hu := ha.undisturbed
      by_cases hpath : ((w.heard i data).conns i).path = endpoint Protocol.PathCancel
      · have hroute : (w.heard i data).onRequestReady i = (w.heard i data).handleCancel i := by
          unfold onRequestReady
          simp only [hpath]
          rfl
        have hiff := handleCancel_undisturbed_iff (hr.acts.inv hinv) (hbusy.alone ha) hl
        rw [hu.pending, hu.sessionId] at hiff
        rw [hroute]
        exact ⟨fun hd hcancels => hiff.1 (hu.symm.trans hd) hcancels.2.2,
          fun hn => hu.trans (hiff.2 fun hheeded => hn ⟨hc, hpath, hheeded⟩)⟩
      · exact iff_of_true (hu.trans (onRequestReady_undisturbed (hbusy.alone ha) hl hpath))
          fun hcancels => hpath hcancels.2.1
    · rw [step_incomplete hinv hlive hc]
      exact iff_of_true ha.undisturbed fun hcancels => hc hcancels.1
  · rw [show w.step (.readyRead i data) = w from if_neg hlive]
    exact iff_of_true (.refl w) fun hcancels => hlive hcancels.1.1

end

/-! ## A session that a stranger ends -/

section

local instance boundQt : Qt := Ascii.qt [(Ascii.json oneFile, oneFile)] []

/-- A prepare-upload is let in at once; another host connects. -/
def openedEvents : List Event := [
  .startListening,
  .connect (str "10.0.0.2") none,
  .readyRead 0 (post prepareTarget (Ascii.json oneFile)),
  .connect (str "10.0.0.9") none]

theorem prepare_turned_away : Undisturbed (openedEvents.foldl step helloStart)
    ((openedEvents.foldl step helloStart).step
      (.readyRead 1 (post prepareTarget (Ascii.json oneFile)))) := by
  have hreached : Lib.Reached system (openedEvents.foldl step helloStart) :=
    Lib.ReachedBy.run_any _ (.start helloStart_start)
  have hsession : (openedEvents.foldl step helloStart).sessionId ≠ [] := by decide +kernel
  have hpath : (((openedEvents.foldl step helloStart).heard 1
      (post prepareTarget (Ascii.json oneFile))).conns 1).path ≠ endpoint Protocol.PathCancel := by
    decide +kernel
  exact (stranger_disturbs_iff hreached (.inr hsession) (i := 1) (by decide +kernel) _).2
    fun hc => hpath hc.2.1

/-- A `/cancel` without a session id, from anywhere, ends the session. -/
theorem cancelled_by_stranger : ∃ (w : World) (data : QByteArray), Lib.Reached system w ∧
    w.sessionId ≠ [] ∧ (w.conns 1).peerAddress ≠ w.ownerAddress ∧
    (w.step (.readyRead 1 data)).sessionId = [] :=
  ⟨openedEvents.foldl step helloStart, post (ascii "/api/localsend/v2/cancel") [],
    Lib.ReachedBy.run_any _ (.start helloStart_start), by decide +kernel⟩

end

end World

end LocalSend
