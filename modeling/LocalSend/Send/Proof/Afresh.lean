import LocalSend.Send.Proof.Books
import LocalSend.Send.Proof.InTurn

/-!
# No file goes up twice

A file goes up at most once in a session (`Distinct`): a row that is shipped does not wait any more,
and only a row that waits is shipped. And an upload that is under way was posted in the step in which
it came up (`Traced`), so that two requests never stand for one shipment.
-/

set_option autoImplicit false

namespace LocalSend

/-- The same file, in the same session. -/
def Shipment.Again (s s' : Shipment) : Prop :=
  s.sessionId ≠ [] ∧ s.sessionId = s'.sessionId ∧ s.fileId = s'.fileId

theorem Shipment.Again.symm {s s' : Shipment} (h : s.Again s') : s'.Again s :=
  ⟨h.2.1 ▸ h.1, h.2.1.symm, h.2.2.symm⟩

namespace Sender

/-- At most one file goes up between `w` and `v`, and it did not before. -/
def Adds (w v : Sender) : Prop := shipments v.log = shipments w.log ∨
  ∃ s, shipments v.log = shipments w.log ++ [s] ∧ ∀ s' ∈ shipments w.log, ¬ s'.Again s

/-- No file went up twice in a session. -/
def Distinct (w : Sender) : Prop := (shipments w.log).Pairwise fun s s' => ¬ s.Again s'

variable {u v w : Sender} {G G' : QString → Prop} {K K' : Shipment → Prop}

theorem Distinct.adds (h : w.Distinct) (ha : Adds w v) : v.Distinct := by
  unfold Distinct
  rcases ha with heq | ⟨s, heq, hnew⟩
  · rw [heq]
    exact h
  · rw [heq, List.pairwise_append]
    refine ⟨h, List.pairwise_singleton _ _, fun s' hs' t ht => ?_⟩
    rw [List.mem_singleton.1 ht]
    exact hnew s' hs'

theorem Adds.after (h : Adds v w) (hsame : shipments v.log = shipments u.log) : Adds u w := by
  unfold Adds at h ⊢
  rwa [hsame] at h

theorem Books.adds (h : Books G K w) (hm : Moves w v) : Adds w v := by
  cases hm with
  | drift hd => exact .inl hd.shipments
  | @ship u row content mimeType hd hb hrow hwaits hfile =>
    have hu := h.drift hd
    refine Adds.after (.inr ⟨_, uploadRow_shipments row content u, ?_⟩) hd.shipments
    rintro s' hs' ⟨hne, hsession, hfileId⟩
    exact hu.gone s' hs' hne hsession row hrow hfileId.symm hwaits

section
variable [Qt]

/-- Whatever an answer brings about, at most one file goes up. -/
theorem Books.finish_adds (h : Books G K w) (ht : w.Tidy) (hposted : Posted w) (hoffer : w.Offering)
    (hG : ∀ s, G s → G' s) {id : ReplyId} {r : QNetworkReply} (hr : w.replies id = some r)
    {error : Bool} {status : Nat} {body : QByteArray}
    (hgrants : status = 200 → r.request.slot = .prepared → ∀ response, Qt.fromJson body = some response →
      (response.value (str "sessionId")).toString [] ≠ [] →
        ¬ G ((response.value (str "sessionId")).toString []) ∧
          G' ((response.value (str "sessionId")).toString [])) (errorString : QString) :
    Adds w (w.finish id r error status errorString body) := by
  by_cases hslot : r.request.slot.isTransfer = true
  · obtain ⟨-, hb⟩ := ht.waited id r hr hslot
    have hv : Books G (fun _ => True) (w.setReply id none) :=
      (h.drift (setReply_drift id none w)).mono (fun _ hg => hg) fun _ _ => trivial
    have hvb : (w.setReply id none).service.busy = true := hb
    unfold Sender.finish
    simp only
    split
    case h_5 hs =>
      rcases onPrepareFinished_moves hvb id error status body with
        hd | ⟨h200, response, sessionId, hresponse, hsession, u, hu, hm⟩
      · exact .inl hd.shipments
      · have hnew : sessionId ≠ [] → ¬ G sessionId ∧ G' sessionId := fun hne => by
          subst hsession
          exact hgrants h200 hs response hresponse hne
        have hgranted := (hv.drift hu).session (hu.undone (hoffer id r hr hs)) hnew hG
        exact (hgranted.adds hm).after hu.shipments
    case h_6 row hs =>
      obtain ⟨s, hmem, -, hrow, hcurrent, hid, hsize, hsession⟩ := hposted.shipped ht hr hs
      rcases onUploadFinished_moves hvb id error status errorString with
        hm | ⟨-, -, -, u, hu, hsame, hm⟩
      · exact hv.adds hm
      · have hcurrent' : u.service.currentRow = some row := by
          rw [hsame]
          exact hcurrent
        have hsession' : s.sessionId = u.service.sessionId := by
          rw [hsame]
          exact hsession
        have hdone := (hv.drift hu).success hcurrent' (hu.shipments.symm ▸ hmem) hrow
          (hid.trans (hu.rows row).id.symm) (hsize.trans (hu.rows row).size.symm) hsession' trivial
        refine (hdone.adds hm).after ?_
        unfold settleCurrent
        rw [hcurrent']
        exact hu.shipments
    all_goals
      rename_i hs
      rw [hs] at hslot
      cases hslot
  · have hv := finish_aside (eq_false_of_ne_true hslot) id error status errorString body w
    exact .inl (hv.drift fun q hq => hq.2.2).shipments

theorem sendFiles_shipments (device : DeviceInfo) (paths : List QString) (w : Sender) :
    shipments (w.sendFiles device paths).log = shipments w.log := by
  unfold Sender.sendFiles
  extract_lets peer
  split
  · rfl
  · split
    · rfl
    · have hdrift := fileEntries_drift 0 paths w
      rcases hv : fileEntries 0 paths w with ⟨entries, v⟩
      rw [hv] at hdrift
      simp only
      split
      · exact hdrift.shipments
      · have hasked := (setState_drift .requesting [] (v.beginSending peer entries)).trans
          (requestUpload_drift [] _)
        exact hasked.shipments.trans hdrift.shipments

theorem Books.step_adds (h : Books G K w) (ht : w.Tidy) (hposted : Posted w) (hoffer : w.Offering)
    {e : SenderEvent} (hG : ∀ s, G s → G' s) (he : w.Promised G G' K' e) : Adds w (w.step e) := by
  by_cases hdisc : e.isDiscovery = true
  · exact .inl ((step_aside hdisc w).drift fun q hq => hq.unrelated hdisc).shipments
  by_cases hreply : e.isReply = true
  · have fails : ∀ {id : ReplyId} {r : QNetworkReply}, w.replies id = some r → ∀ errorString,
        Adds w (w.finish id r true 0 errorString []) := fun hr errorString =>
      h.finish_adds ht hposted hoffer hG hr (fun hx => by cases hx) errorString
    cases e with
    | connects id certificate reported =>
      simp only [Sender.step]
      cases hr : w.replies id with
      | none => exact .inl rfl
      | some r =>
        simp only [connect]
        split
        · exact .inl rfl
        · split
          · refine .inl (shipments_append fun e he => ?_)
            rw [List.mem_singleton.1 he]
            rfl
          · exact fails hr _
    | answered id error status errorString body =>
      simp only [Sender.step]
      cases hr : w.replies id with
      | none => exact .inl rfl
      | some r =>
        simp only
        split
        · rename_i hsent
          refine h.finish_adds ht hposted hoffer hG hr
            (fun h200 hs response hresponse hne => ?_) errorString
          subst h200
          exact he.grants id r error errorString body rfl hr hsent hs response hresponse hne
        · exact .inl rfl
    | fails id errorString =>
      simp only [Sender.step]
      cases hr : w.replies id with
      | none => exact .inl rfl
      | some r => exact fails hr _
    | _ => cases hreply
  cases e with
  | uploadProgress id sent =>
    simp only [Sender.step]
    split <;> exact .inl rfl
  | hold row =>
    simp only [Sender.step]
    split <;> exact .inl rfl
  | sendFiles device paths =>
    simp only [Sender.step]
    split
    · exact .inl (sendFiles_shipments device paths w)
    · exact .inl rfl
  | submitPin pin => exact .inl (submitPin_drift pin w).shipments
  | cancel => exact .inl (cancel_drift w).shipments
  | edit | settings | files | tick => exact .inl rfl
  | connects | answered | fails => exact absurd rfl hreply
  | _ => exact absurd rfl hdisc

end

/-! ## What comes up was posted -/

/-- The upload or file list of a reply that comes up between `w` and `v` was posted in between. -/
structure Traced (w v : Sender) : Prop where
  log : w.log <+: v.log
  back : ∀ id r, v.replies id = some r → r.request.slot.isTransfer = true →
    (∃ q, w.replies id = some q ∧ q.request = r.request ∧ (q.sent = true → r.sent = true)) ∨
      ∃ e ∈ v.log.drop w.log.length, e.what = .posted r.request

theorem Traced.trans (h : Traced u v) (h' : Traced v w) : Traced u w := by
  obtain ⟨l, hl⟩ := h.log
  obtain ⟨l', hl'⟩ := h'.log
  have hdrop : w.log.drop u.log.length = v.log.drop u.log.length ++ w.log.drop v.log.length := by
    rw [← hl', ← hl]
    simp
  refine ⟨h.log.trans h'.log, fun id r hr ht => ?_⟩
  rw [hdrop]
  rcases h'.back id r hr ht with ⟨q, hq, heq, hsent⟩ | ⟨e, he, hwhat⟩
  · rw [← heq] at ht
    rcases h.back id q hq ht with ⟨q', hq', heq', hsent'⟩ | ⟨e, he, hwhat⟩
    · exact .inl ⟨q', hq', heq'.trans heq, fun hs => hsent (hsent' hs)⟩
    · exact .inr ⟨e, List.mem_append_left _ he, heq ▸ hwhat⟩
  · exact .inr ⟨e, List.mem_append_right _ he, hwhat⟩

theorem Traced.same (hlog : v.log = w.log) (hreplies : v.replies = w.replies) : Traced w v :=
  ⟨by rw [hlog], fun _ r hr _ => .inl ⟨r, hreplies ▸ hr, rfl, id⟩⟩

theorem setReply_traced {id : ReplyId} {q : Option QNetworkReply} (h : ∀ r, q = some r →
    ∃ q', w.replies id = some q' ∧ q'.request = r.request ∧ (q'.sent = true → r.sent = true)) :
    Traced w (w.setReply id q) := by
  refine ⟨List.prefix_rfl, fun j r hr _ => .inl ?_⟩
  by_cases hj : j = id
  · subst hj
    rw [setReply_self] at hr
    exact h r hr
  · rw [setReply_ne hj] at hr
    exact ⟨r, hr, rfl, fun hs => hs⟩

theorem post_traced (q : QNetworkRequest) (w : Sender) : Traced w (w.post q) := by
  refine ⟨List.prefix_append _ _, fun id r hr _ => ?_⟩
  by_cases hid : id = w.nextReply
  · rw [hid, post_self] at hr
    obtain rfl := Option.some.inj hr
    have hlog : (w.post q).log.drop w.log.length = [_] := List.drop_left
    rw [hlog]
    exact .inr ⟨_, List.mem_cons_self, rfl⟩
  · rw [post_ne hid] at hr
    exact .inl ⟨r, hr, rfl, fun hs => hs⟩

theorem traced_frame : Frame Traced where
  trans := Traced.trans
  noted hn := .same hn.log hn.replies
  service _ _ _ _ _ := .same rfl rfl
  abort _ _ _ := setReply_traced nofun
  post q w _ := post_traced q w
  postToPeer content slot w _ :=
    (post_traced (requestTo w.service.peer content slot) w).trans (.same rfl rfl)

/-- An upload that is under way after an event was under way before, or is another one than all that
were posted before. -/
theorem Traced.fresh (h : Traced w v) (ha : Adds w v) {id : ReplyId} {r : QNetworkReply}
    {s : Shipment} (hr : v.replies id = some r) (hs : r.request.shipment? = some s) :
    (∃ q, w.replies id = some q ∧ q.request = r.request ∧ (q.sent = true → r.sent = true)) ∨
      ∀ s' ∈ shipments w.log, ¬ s'.Again s := by
  have hslot : r.request.slot.isTransfer = true := by
    unfold QNetworkRequest.shipment? at hs
    split at hs
    · rename_i _ heq
      rw [heq]
      rfl
    · cases hs
  refine (h.back id r hr hslot).imp_right ?_
  rintro ⟨e, he, hwhat⟩
  obtain ⟨l, hl⟩ := h.log
  rw [← hl, List.drop_left] at he
  have hmem : s ∈ shipments l := List.mem_filterMap.2 ⟨e, he, by rw [hwhat]; exact hs⟩
  have hlog : shipments v.log = shipments w.log ++ shipments l := by
    rw [← hl]
    exact List.filterMap_append
  rcases ha with heq | ⟨s', heq, hnew⟩
  · have hnil : shipments l = [] := List.append_right_eq_self.1 (hlog.symm.trans heq)
    rw [hnil] at hmem
    cases hmem
  · rw [List.append_cancel_left (hlog.symm.trans heq), List.mem_singleton] at hmem
    exact hmem ▸ hnew

/-- What is none of the transfer's business posts nothing of a transfer. -/
theorem Aside.traced {A : Outbound → Prop} (hv : Aside A w v)
    (hA : ∀ q, A (.posted q) → q.slot.isTransfer = false)
    (hfresh : ∀ id, w.nextReply ≤ id → w.replies id = none) : Traced w v := by
  obtain ⟨l, hl, -⟩ := hv.log
  refine ⟨⟨l, hl.symm⟩, fun id r hr ht => .inl ?_⟩
  by_cases hid : id < w.nextReply
  · exact ⟨r, (hv.kept id hid).symm.trans hr, rfl, fun hs => hs⟩
  · rcases hv.replies id r hr with ⟨q, hq, -⟩ | ha
    · cases (hfresh id (Nat.le_of_not_lt hid)).symm.trans hq
    · cases (hA _ ha).symm.trans ht

section
variable [Qt]

theorem Tidy.traced (ht : w.Tidy) (e : SenderEvent) : Traced w (w.step e) := by
  by_cases hdisc : e.isDiscovery = true
  · exact (step_aside hdisc w).traced (fun q hq => hq.unrelated hdisc) ht.fresh
  by_cases hreply : e.isReply = true
  · rcases step_reply hreply w with heq | ⟨id, r, certificate, seen, hr, heq⟩ | ⟨id, r, error, status,
      errorString, body, hr, heq⟩
    · rw [heq]
      exact .same rfl rfl
    · rw [heq]
      have hmark : Traced w (w.setReply id (some ⟨r.request, true, certificate⟩)) :=
        setReply_traced fun q hq => ⟨r, hr, by cases hq; rfl, fun _ => by cases hq; rfl⟩
      exact hmark.trans ⟨List.prefix_append _ _, fun _ r hr _ => .inl ⟨r, hr, rfl, fun hs => hs⟩⟩
    · have hgone : Traced w (w.setReply id none) := setReply_traced nofun
      rw [heq]
      refine hgone.trans ?_
      by_cases htransfer : r.request.slot.isTransfer = true
      · exact traced_frame.finish (.inl htransfer) id error status errorString body w
      · refine (finish_aside (eq_false_of_ne_true htransfer) id error status errorString body
          w).traced (fun q hq => hq.2.2) fun j hj => ?_
        by_cases hid : j = id
        · rw [hid, setReply_self]
        · rw [setReply_ne hid]
          exact ht.fresh j hj
  cases e with
  | uploadProgress id sent =>
    simp only [Sender.step]
    split <;> exact .same rfl rfl
  | hold row =>
    simp only [Sender.step]
    split <;> exact .same rfl rfl
  | sendFiles device paths =>
    simp only [Sender.step]
    split
    · exact traced_frame.sendFiles device paths w
    · exact .same rfl rfl
  | submitPin pin => exact traced_frame.submitPin pin w
  | cancel => exact traced_frame.cancel w
  | edit | settings | files | tick => exact .same rfl rfl
  | connects | answered | fails => exact absurd rfl hreply
  | _ => exact absurd rfl hdisc

end

end Sender

end LocalSend
