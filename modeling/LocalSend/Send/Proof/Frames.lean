import LocalSend.Send.Proof.Emits

/-!
# What a transfer leaves alone

`Frame R`: the relation `R` between a state and a later one lasts through everything `SendService`
is made of: notes on the transfer, requests that are posted, the request that is given up. Then it
lasts through each function of `SendService` (`Frame.finish`, `Frame.cancel` and so on). `Apart` is
such a relation: the settings, the list of devices, what `Discovery` remembers and the clock stay
as they are.
-/

set_option autoImplicit false

namespace LocalSend.Sender

structure Frame (R : Sender → Sender → Prop) : Prop where
  trans : ∀ {u v w : Sender}, R u v → R v w → R u w
  noted : ∀ {w v : Sender}, Noted w v → R w v
  service : ∀ (t : TransferModel) (s : SendService) (known : KnownDevices) (w : Sender),
    s.reply = w.service.reply ∨ s.reply = none →
      R w { w with transfer := t, service := s, known := known }
  abort : ∀ (id : ReplyId) (w : Sender), w.service.reply = some id → R w (w.setReply id none)
  post : ∀ (q : QNetworkRequest) (w : Sender), q.slot = .ignored → R w (w.post q)
  postToPeer : ∀ (content : Content) (slot : ReplySlot) (w : Sender), slot.isTransfer = true →
    R w (w.postToPeer content slot)

theorem apart_frame : Frame Apart where
  trans := Apart.trans
  noted := Noted.toApart
  service _ _ _ _ _ := ⟨rfl, rfl, rfl, rfl⟩
  abort _ _ _ := ⟨rfl, rfl, rfl, rfl⟩
  post _ _ _ := ⟨rfl, rfl, rfl, rfl⟩
  postToPeer _ _ _ _ := ⟨rfl, rfl, rfl, rfl⟩

namespace Frame

variable {R : Sender → Sender → Prop} (hR : Frame R)
include hR

theorem refl (w : Sender) : R w w := hR.noted (.refl w)

theorem uploadRow (row : Nat) (content : QByteArray) (w : Sender) :
    R w (w.uploadRow row content) := by
  unfold Sender.uploadRow
  extract_lets entry s v
  have hv : R w v := hR.service _ _ _ w (.inl rfl)
  have hrow : R v (v.setFileStatus row .transferring []) := hR.noted (setFileStatus_noted _ _ _ v)
  exact hR.trans (hR.trans hv hrow) (hR.postToPeer _ _ _ rfl)

theorem cancel (w : Sender) : R w w.cancel := by
  unfold Sender.cancel
  split
  · exact hR.refl w
  · extract_lets v
    have haborted : R w w.abortReply := by
      unfold abortReply
      cases hreply : w.service.reply with
      | none => exact hR.service _ _ _ w (.inr rfl)
      | some id => exact hR.trans (hR.abort id w hreply) (hR.service _ _ _ _ (.inr rfl))
    have hclosed := hR.trans haborted (hR.noted (closeCurrentFile_noted w.abortReply))
    have hnotified : R w.abortReply.closeCurrentFile
        w.abortReply.closeCurrentFile.notifyPeerCancelled := by
      unfold notifyPeerCancelled
      split
      · exact hR.refl _
      · exact hR.post _ _ rfl
    have hskipped := ((skipRows_noted (fun s => s = .waiting ∨ s = .transferring)
      w.abortReply.closeCurrentFile.notifyPeerCancelled).trans
      (setState_noted .cancelled [] _)).trans
      (record_noted (str "cancelled") v.transfer.completedCount v)
    exact hR.trans (hR.trans hclosed hnotified) (hR.noted hskipped)

variable [Qt]

theorem completeTransfer (w : Sender) : R w w.completeTransfer := by
  unfold Sender.completeTransfer
  extract_lets done total v peer u
  have hv : R w v := by
    simp only [v]
    split_ifs <;> exact hR.noted (setState_noted _ _ w)
  have hu : R v u := by
    simp only [u]
    split
    · exact hR.service _ _ _ v (.inl rfl)
    · exact hR.refl v
  exact hR.trans (hR.trans hv hu) (hR.noted ((writeHistory_noted u).trans (leave_noted _ _ _)))

theorem startRows (rows : List Nat) (w : Sender) : R w (startRows rows w) := by
  induction rows generalizing w with
  | nil => exact hR.completeTransfer w
  | cons row rows ih =>
    unfold Sender.startRows
    split
    · exact ih w
    · extract_lets s v
      have hv : R w v := hR.service _ _ _ w (.inl rfl)
      split
      · exact hR.trans hv (hR.uploadRow row _ v)
      · exact hR.trans (hR.trans hv (hR.noted (setFileStatus_noted _ _ _ v))) (ih _)

theorem startNextFile (w : Sender) : R w w.startNextFile := by
  unfold Sender.startNextFile
  extract_lets v next
  have hv : R w v := hR.noted (closeCurrentFile_noted w)
  split
  · exact hv
  · exact hR.trans hv (hR.startRows _ v)

theorem submitPin (pin : QString) (w : Sender) : R w (w.submitPin pin) := by
  unfold Sender.submitPin
  split
  · exact hR.refl w
  · extract_lets s v
    have hv : R w v := hR.service _ _ _ w (.inl rfl)
    have hasking := hR.trans hv (hR.noted (setState_noted .requesting [] v))
    exact hR.trans hasking (hR.postToPeer _ _ _ rfl)

theorem sendFiles (device : DeviceInfo) (paths : List QString) (w : Sender) :
    R w (w.sendFiles device paths) := by
  unfold Sender.sendFiles
  extract_lets peer
  split
  · exact hR.refl w
  · split
    · exact hR.trans (hR.service _ w.service w.known w (.inl rfl)) (hR.noted (setState_noted _ _ _))
    · have hentries := hR.noted (fileEntries_noted 0 paths w)
      rcases hv : fileEntries 0 paths w with ⟨entries, v⟩
      rw [hv] at hentries
      simp only
      split
      · exact hentries
      · have hbegun : R v (v.beginSending peer entries) := hR.service _ _ _ v (.inl rfl)
        have hasking := hR.trans hbegun (hR.noted (setState_noted .requesting [] _))
        exact hR.trans (hR.trans hentries hasking) (hR.postToPeer _ _ _ rfl)

theorem onAccepted (body : QByteArray) (w : Sender) : R w (w.onAccepted body) := by
  unfold Sender.onAccepted
  extract_lets unreadable
  split
  · exact hR.noted (failTransfer_noted _ w)
  · extract_lets sessionId tokens v
    have hv : R w v := hR.service _ _ _ w (.inl rfl)
    split
    · exact hR.trans hv (hR.noted (failTransfer_noted _ v))
    · have ht := hR.trans hv (hR.noted (takeTokens_noted tokens v))
      rcases hu : v.takeTokens tokens with ⟨accepted, u⟩
      rw [hu] at ht
      simp only
      split
      · exact hR.trans ht (hR.noted (quit_noted _ _ u))
      · have hactive : R u { u.setState .active [] with
            service := { u.service with currentRow := none } } :=
          hR.trans (hR.noted (setState_noted .active [] u)) (hR.service _ _ _ _ (.inl rfl))
        exact hR.trans (hR.trans ht hactive) (hR.startNextFile _)

theorem onPrepareFinished (id : ReplyId) (error : Bool) (status : Nat) (body : QByteArray)
    (w : Sender) : R w (w.onPrepareFinished id error status body) := by
  unfold Sender.onPrepareFinished
  extract_lets v aliasName
  have hv : R w v := hR.noted (forgetReply_noted id w)
  have fails := fun message => hR.trans hv (hR.noted (failTransfer_noted message v))
  split
  · exact hv
  · split
    · exact fails _
    · split
      · exact hR.trans hv (hR.onAccepted body v)
      · exact hR.trans hv (hR.noted (quit_noted _ _ v))
      · exact hR.trans hv (hR.noted ((setState_noted _ _ v).trans (signal_noted _ _)))
      · exact hR.trans hv (hR.noted ((signal_noted _ v).trans (quit_noted _ _ _)))
      · exact fails _
      · exact fails _
      · exact fails _

theorem onUploadFinished (id : ReplyId) (error : Bool) (status : Nat) (errorString : QString)
    (w : Sender) : R w (w.onUploadFinished id error status errorString) := by
  unfold Sender.onUploadFinished
  extract_lets v
  have hv : R w v := hR.noted (forgetReply_noted id w)
  have settled := fun status error => hR.trans hv (hR.noted (settleCurrent_noted status error v))
  split
  · exact hv
  · split
    · exact hR.trans (settled _ _) (hR.startNextFile _)
    · split
      · exact hR.trans (settled _ _) (hR.noted (failTransfer_noted _ _))
      · exact hR.trans (settled _ _) (hR.startNextFile _)

/-- The end of a request of a transfer, or of one that nobody waits for. -/
theorem finish {r : QNetworkReply}
    (h : r.request.slot.isTransfer = true ∨ r.request.slot = .ignored) (id : ReplyId)
    (error : Bool) (status : Nat) (errorString : QString) (body : QByteArray) (w : Sender) :
    R (w.setReply id none) (w.finish id r error status errorString body) := by
  unfold Sender.finish
  extract_lets v
  cases hs : r.request.slot with
  | prepared => exact hR.onPrepareFinished id error status body v
  | uploaded row => exact hR.onUploadFinished id error status errorString v
  | ignored => exact hR.refl v
  | _ =>
    rw [hs] at h
    rcases h with h | h <;> cases h

end Frame

end LocalSend.Sender
