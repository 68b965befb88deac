import LocalSend.Http.Proof.Rule
import LocalSend.Receive.Proof.Frame

/-!
# What tearing down leaves alone

Answering a connection whose `closed()` reaches only `onPendingClosed` changes that connection and
whether its request is pending (`parted_respond`). So the loop that cuts off what is streaming keeps
the session and empties the table of uploads (`cutOffs_uploads`).
-/

set_option autoImplicit false

namespace LocalSend

namespace World

variable {w : World} {i : ConnId}

@[simp] theorem conns_setConn (w : World) (i : ConnId) (c : HttpConnection) :
    (w.setConn i c).conns i = c := Function.update_self _ _ _

theorem setConn_setConn (w : World) (i : ConnId) (c d : HttpConnection) :
    (w.setConn i c).setConn i d = w.setConn i d := by
  simp only [setConn, Function.update_idem]

/-- The end of an upload does not depend on its connection. -/
theorem dropUpload_setConn (i : ConnId) (c : HttpConnection) (u : Upload) (error : QString)
    (w : World) :
    (w.setConn i c).dropUpload i u error = (w.dropUpload i u error).setConn i c := by
  unfold dropUpload closeFile removeFile setConn
  simp only
  split
  · split <;> rfl
  · split <;> rfl

theorem onPendingClosed_eq (i : ConnId) (w : World) : ∃ pending timer t,
    w.onPendingClosed i = { w with pending := pending, acceptTimer := timer, transfer := t } ∧
      w.transfer.Alike t ∧ (pending = w.pending ∨ pending = none) := by
  unfold onPendingClosed
  split
  · exact ⟨w.pending, w.acceptTimer, w.transfer, rfl, .refl _, .inl rfl⟩
  · extract_lets v
    split
    · exact ⟨none, false, _, rfl, TransferModel.alike_setState _ _ _, .inr rfl⟩
    · exact ⟨none, false, w.transfer, rfl, .refl _, .inr rfl⟩

theorem pending_onPendingClosed (h : w.pending = some i) : (w.onPendingClosed i).pending = none := by
  unfold onPendingClosed
  rw [if_neg (not_not.2 h)]
  extract_lets v
  split <;> rfl

@[simp] theorem conns_onPendingClosed (i : ConnId) (w : World) :
    (w.onPendingClosed i).conns = w.conns := by
  obtain ⟨p, a, t, h, -⟩ := onPendingClosed_eq i w
  rw [h]

/-- `v` is `w`, or `w` with the request of `i` no longer pending, but for the connection `i`, which
has answered at most with `r`. -/
def Parted (i : ConnId) (r : Response) (w v : World) : Prop :=
  ∃ c : HttpConnection, c.state = .responded ∧ ((w.conns i).Idle c ∨
      HttpConnection.Idle { w.conns i with sent := (w.conns i).sent ++ [.response r] } c) ∧
    (v = w.setConn i c ∨ v = (w.onPendingClosed i).setConn i c)

theorem Parted.modify {r : Response} {v : World} (h : Parted i r w v)
    {f : HttpConnection → HttpConnection} (hf : ∀ c : HttpConnection, c.Idle (f c)) :
    Parted i r w ((parkedPort i).modify f v) := by
  obtain ⟨c, hst, hc, hv⟩ := h
  refine ⟨f c, (hf c).answered hst, hc.imp (·.trans (hf c)) (·.trans (hf c)), ?_⟩
  rcases hv with rfl | rfl
  · left
    simp [Port.modify, parkedPort, setConn]
  · right
    simp [Port.modify, parkedPort, setConn]

/-- Whether a request waits does not depend on the state of its connection. -/
theorem onPendingClosed_setConn (i : ConnId) (c : HttpConnection) (w : World) :
    (w.setConn i c).onPendingClosed i = (w.onPendingClosed i).setConn i c := by
  unfold onPendingClosed setConn
  simp only
  split
  · rfl
  · split <;> rfl

theorem Parted.hangUp {r : Response} {v : World} (h : Parted i r w v) :
    Parted i r w ((parkedPort i).hangUp v) := by
  have idem : ∀ u, onPendingClosed i (onPendingClosed i u) = onPendingClosed i u := by
    intro u
    unfold onPendingClosed
    by_cases hp : u.pending = some i
    · by_cases hs : u.sessionId = [] <;> simp [hp, hs, World.setState]
    · simp [hp]
  unfold Port.hangUp Port.onDisconnected
  have h₁ := h.modify (f := fun c => { c with connected := false })
    fun c => { HttpConnection.Idle.refl c with }
  split
  · exact h₁
  · obtain ⟨c, hst, hc, hv⟩ := h₁.modify
      (f := fun c => { c with closedEmitted := true, state := .responded })
      fun c => .of_responded { HttpConnection.Idle.refl c with } rfl
    refine ⟨c, hst, hc, .inr ?_⟩
    rcases hv with hv | hv
    · rw [hv]
      exact onPendingClosed_setConn i c w
    · rw [hv]
      exact (onPendingClosed_setConn i c _).trans (by rw [idem])

/-- If `i` is still parked, it has answered. -/
theorem Parted.answered {r : Response} {v : World} (h : Parted i r w v) (hp : w.pending = some i)
    (j : ConnId) (hj : v.pending = some j) : (v.conns j).state = .responded := by
  obtain ⟨c, hst, -, rfl | rfl⟩ := h
  · obtain rfl : i = j := Option.some.inj (hp.symm.trans hj)
    rw [conns_setConn]
    exact hst
  · cases (pending_onPendingClosed hp).symm.trans hj

theorem Parted.frame {r : Response} {v : World} (h : Parted i r w v) :
    v.sessionId = w.sessionId ∧ v.uploads = w.uploads := by
  obtain ⟨c, -, -, rfl | rfl⟩ := h
  · exact ⟨rfl, rfl⟩
  · obtain ⟨p, a, t, heq, -⟩ := onPendingClosed_eq i w
    rw [heq]
    exact ⟨rfl, rfl⟩

/-- Answering a parked connection changes that connection and whether it is parked. -/
theorem parted_respond (w : World) (i : ConnId) (status : Nat) (payload contentType : QByteArray) :
    Parted i ⟨status, contentType, (w.conns i).extraHeaders, payload⟩ w
      ((parkedPort i).respond status payload contentType w) := by
  unfold Port.respond
  split
  · rename_i hst
    exact ⟨w.conns i, hst, .inl (.refl _), .inl (by rw [setConn, Function.update_eq_self])⟩
  · unfold Port.transmit
    have hstep : HttpConnection.Idle (w.conns i)
        { w.conns i with state := .responded, idleTimer := none } :=
      .of_responded { HttpConnection.Idle.refl _ with } rfl
    split
    · extract_lets w₁ w₂
      have h₁ : Parted i ⟨status, contentType, (w.conns i).extraHeaders, payload⟩ w w₁ := by
        refine ⟨{ w.conns i with
          state := .responded
          idleTimer := none
          sent := (w.conns i).sent ++
            [.response ⟨status, contentType, (w.conns i).extraHeaders, payload⟩] }, rfl,
          .inr (.of_responded { HttpConnection.Idle.refl _ with } rfl), .inl ?_⟩
        simp [w₁, Port.modify, parkedPort, setConn]
      have h₂ : Parted i ⟨status, contentType, (w.conns i).extraHeaders, payload⟩ w w₂ := by
        simp only [w₂]
        split
        · exact h₁.hangUp
        · exact h₁
      split
      · exact h₂.modify fun c => { HttpConnection.Idle.refl c with }
      · exact h₂.modify fun c => { HttpConnection.Idle.refl c with }
    · exact ⟨_, rfl, .inl hstep, .inl rfl⟩

theorem cutOff_frame (w : World) (j : ConnId) : (w.cutOff j).sessionId = w.sessionId ∧
    (w.cutOff j).uploads = w.uploads.erase j := by
  unfold cutOff
  extract_lets row w₁ w₂
  rcases hu : w.uploads.lookup j with - | u
  · have h₁ : w₁ = w := closeUpload_none hu false
    have h₂ : w₂ = w := by simp only [w₂, row, hu, Option.map_none, h₁]
    rw [h₂]
    obtain ⟨h1, h2⟩ := (parted_respond w j 500 [] jsonType).frame
    refine ⟨h1, h2.trans ?_⟩
    rw [AList.lookup_eq_none] at hu
    exact (AList.ext (List.kerase_of_notMem_keys hu)).symm
  · have h₂ : w₂ = w.dropUpload j u (str "Transfer stopped") := by
      simp only [w₂, w₁, row, hu, Option.map_some]
      unfold closeUpload dropUpload
      rw [hu]
      rfl
    rw [h₂]
    obtain ⟨d, hd⟩ := dropUpload_eq j u (str "Transfer stopped") w
    obtain ⟨h1, h2⟩ := (parted_respond (w.dropUpload j u (str "Transfer stopped")) j 500 []
      jsonType).frame
    rw [h1, h2, hd]
    exact ⟨rfl, rfl⟩

theorem cutOffs_frame : ∀ (keys : List ConnId) (w : World),
    (keys.foldl cutOff w).sessionId = w.sessionId ∧
    ∀ j, (keys.foldl cutOff w).uploads.lookup j =
      if j ∈ keys then none else w.uploads.lookup j
  | [], w => ⟨rfl, fun j => by simp⟩
  | k :: keys, w => by
    obtain ⟨h1, h2⟩ := cutOff_frame w k
    obtain ⟨h3, h4⟩ := cutOffs_frame keys (w.cutOff k)
    refine ⟨h3.trans h1, fun j => ?_⟩
    rw [List.foldl_cons, h4, h2]
    by_cases hj : j = k
    · subst hj
      simp [AList.lookup_erase]
    · simp [hj, AList.lookup_erase_ne hj]

/-- Everything that is still streaming is cut off. -/
theorem cutOffs_uploads (w : World) : (w.uploads.keys.foldl cutOff w).uploads = ∅ := by
  have hnone : ∀ j, (w.uploads.keys.foldl cutOff w).uploads.lookup j = none := by
    intro j
    rw [(cutOffs_frame _ w).2 j]
    split
    · rfl
    · rename_i hj
      exact AList.lookup_eq_none.2 hj
  refine AList.ext ?_
  rcases he : (w.uploads.keys.foldl cutOff w).uploads.entries with - | ⟨e, es⟩
  · rfl
  · exfalso
    have hmem : e.1 ∈ (w.uploads.keys.foldl cutOff w).uploads := by
      rw [AList.mem_keys, AList.keys, List.keys, he]
      simp
    exact AList.lookup_eq_none.1 (hnone e.1) hmem

theorem setOutcome_frame (w : World) (status : QString) :
    ∃ t, w.setOutcome status = { w with transfer := t } := by
  unfold setOutcome
  extract_lets done total
  split
  · exact ⟨_, rfl⟩
  · split
    · exact ⟨_, rfl⟩
    · split <;> exact ⟨_, rfl⟩

theorem writeHistory_frame (w : World) :
    w.writeHistory.sessionId = w.sessionId ∧ w.writeHistory.uploads = w.uploads := by
  unfold writeHistory
  split <;> exact ⟨rfl, rfl⟩

end World

end LocalSend
