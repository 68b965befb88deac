import LocalSend.Send.Proof.Closed
import LocalSend.Send.Proof.Frames

/-!
# One upload at a time

A `Handshake` is the sending side with what the receiver has said so far: whether it waits for a
PIN, and which tokens it gave. As long as each `pinRequired` is answered once (`Prompted`), the files
of a transfer go up one after the other, and the replies of a transfer that was cancelled do nothing.
-/

set_option autoImplicit false

namespace LocalSend

/-- The reply an event is about. -/
def SenderEvent.replyId : SenderEvent → Option ReplyId
  | .connects id _ _ | .uploadProgress id _ | .answered id .. | .fails id _ => some id
  | _ => none

namespace Sender

/-! ## Requests keep their numbers -/

/-- A request is an old one, or has a new number. -/
structure Forward (w v : Sender) : Prop where
  next : w.nextReply ≤ v.nextReply
  back : ∀ id r, v.replies id = some r →
    (∃ q, w.replies id = some q ∧ q.request = r.request) ∨ w.nextReply ≤ id

variable {u v w : Sender}

theorem Forward.same (hnext : v.nextReply = w.nextReply) (hreplies : v.replies = w.replies) :
    Forward w v := ⟨Nat.le_of_eq hnext.symm, fun _ r hr => .inl ⟨r, hreplies ▸ hr, rfl⟩⟩

theorem Forward.trans (h : Forward u v) (h' : Forward v w) : Forward u w := by
  refine ⟨Nat.le_trans h.next h'.next, fun id r hr => ?_⟩
  rcases h'.back id r hr with ⟨q, hq, heq⟩ | hid
  · rcases h.back id q hq with ⟨p, hp, heq'⟩ | hid
    · exact .inl ⟨p, hp, heq'.trans heq⟩
    · exact .inr hid
  · exact .inr (Nat.le_trans h.next hid)

theorem Aside.forward {A : Outbound → Prop} (h : Aside A w v) : Forward w v := by
  refine ⟨h.next, fun id r hr => ?_⟩
  by_cases hid : id < w.nextReply
  · exact .inl ⟨r, h.kept id hid ▸ hr, rfl⟩
  · exact .inr (Nat.le_of_not_lt hid)

theorem setReply_forward {id : ReplyId} {q : Option QNetworkReply}
    (h : ∀ r, q = some r → ∃ p, w.replies id = some p ∧ p.request = r.request) :
    Forward w (w.setReply id q) := by
  refine ⟨Nat.le_refl _, fun j r hr => .inl ?_⟩
  by_cases hj : j = id
  · subst hj
    rw [setReply_self] at hr
    exact h r hr
  · rw [setReply_ne hj] at hr
    exact ⟨r, hr, rfl⟩

theorem post_forward (q : QNetworkRequest) (w : Sender) : Forward w (w.post q) := by
  refine ⟨Nat.le_succ _, fun id r hr => ?_⟩
  by_cases hid : id = w.nextReply
  · exact .inr (Nat.le_of_eq hid.symm)
  · rw [post_ne hid] at hr
    exact .inl ⟨r, hr, rfl⟩

theorem forward_frame : Frame Forward where
  trans := Forward.trans
  noted h := .same h.nextReply h.replies
  service _ _ _ _ _ := .same rfl rfl
  abort _ _ _ := setReply_forward nofun
  post q w _ := post_forward q w
  postToPeer content slot w _ :=
    (post_forward (requestTo w.service.peer content slot) w).trans (.same rfl rfl)

section
variable [Qt]

theorem finish_forward (id : ReplyId) (r : QNetworkReply) (error : Bool) (status : Nat)
    (errorString : QString) (body : QByteArray) (w : Sender) :
    Forward (w.setReply id none) (w.finish id r error status errorString body) := by
  rcases hslot : r.request.slot.isTransfer with - | -
  · exact (finish_aside hslot id error status errorString body w).forward
  · exact forward_frame.finish (.inl hslot) id error status errorString body w

theorem step_forward (e : SenderEvent) (w : Sender) : Forward w (w.step e) := by
  by_cases hdisc : e.isDiscovery = true
  · exact (step_aside hdisc w).forward
  by_cases hreply : e.isReply = true
  · rcases step_reply hreply w with heq | ⟨id, r, certificate, seen, hr, heq⟩ | ⟨id, r, error, status,
      errorString, body, hr, heq⟩
    · rw [heq]
      exact .same rfl rfl
    · rw [heq]
      have hmark : Forward w (w.setReply id (some ⟨r.request, true, certificate⟩)) :=
        setReply_forward fun q hq => ⟨r, hr, by cases hq; rfl⟩
      exact hmark.trans (.same rfl rfl)
    · have hgone : Forward w (w.setReply id none) := setReply_forward nofun
      rw [heq]
      exact hgone.trans (finish_forward id r error status errorString body w)
  cases e with
  | uploadProgress id sent =>
    simp only [step]
    split <;> exact .same rfl rfl
  | hold row =>
    simp only [step]
    split <;> exact .same rfl rfl
  | sendFiles device paths =>
    simp only [step]
    split
    · exact forward_frame.sendFiles device paths w
    · exact .same rfl rfl
  | submitPin pin => exact forward_frame.submitPin pin w
  | cancel => exact forward_frame.cancel w
  | edit e => exact .same rfl rfl
  | settings s => exact .same rfl rfl
  | files files => exact .same rfl rfl
  | tick ms => exact .same rfl rfl
  | connects => exact absurd rfl hreply
  | answered => exact absurd rfl hreply
  | fails => exact absurd rfl hreply
  | _ => exact absurd rfl hdisc

/-- The reply of something else leaves the transfer alone. -/
theorem step_unrelated {e : SenderEvent} {id : ReplyId} (hid : e.replyId = some id)
    (h : ∀ r, w.replies id = some r → r.request.slot.isTransfer = false) :
    (w.step e).transfer = w.transfer ∧ (w.step e).service = w.service := by
  have finished : ∀ r, w.replies id = some r → ∀ error status errorString body,
      (w.finish id r error status errorString body).transfer = w.transfer ∧
        (w.finish id r error status errorString body).service = w.service := by
    intro r hr error status errorString body
    have hv := finish_aside (h r hr) id error status errorString body w
    exact ⟨hv.transfer, hv.service⟩
  cases e with
  | connects j certificate reported =>
    obtain rfl := Option.some.inj hid
    simp only [step]
    split
    · rename_i r hr
      simp only [connect]
      split
      · exact ⟨rfl, rfl⟩
      · split
        · exact ⟨rfl, rfl⟩
        · exact finished r hr _ _ _ _
    · exact ⟨rfl, rfl⟩
  | uploadProgress j sent =>
    obtain rfl := Option.some.inj hid
    simp only [step]
    split
    · rename_i hr
      cases h _ hr
    · exact ⟨rfl, rfl⟩
  | answered j error status errorString body =>
    obtain rfl := Option.some.inj hid
    simp only [step]
    split
    · rename_i r hr
      split
      · exact finished r hr _ _ _ _
      · exact ⟨rfl, rfl⟩
    · exact ⟨rfl, rfl⟩
  | fails j errorString =>
    obtain rfl := Option.some.inj hid
    simp only [step]
    split
    · rename_i r hr
      exact finished r hr _ _ _ _
    · exact ⟨rfl, rfl⟩
  | _ => cases hid

end

end Sender

/-! ## What the receiver has said -/

structure Handshake where
  sender : Sender
  /-- A PIN was asked for, and neither a PIN nor the end of the transfer has answered that. -/
  asked : Bool
  granted : QJsonObject

namespace Handshake

open Sender

section
variable [Qt]

/-- What the pages hear at this event. -/
def emitted (s : Handshake) (e : SenderEvent) : List TransferSignal :=
  (s.sender.step e).signals.drop s.sender.signals.length

def next (s : Handshake) (e : SenderEvent) : Handshake where
  sender := s.sender.step e
  asked := match (s.emitted e).getLast? with
    | some (.pinRequired _) => true
    | some _ => false
    | none => s.asked && !e.isPin
  granted := s.sender.granting s.granted e

def system : Lib.System Handshake SenderEvent :=
  ⟨fun s => s.sender.Start ∧ s.asked = false ∧ s.granted = [], next⟩

omit [Qt] in
/-- While something is being sent, a PIN is entered only where one is asked for, and once. -/
def Prompted (s : Handshake) (e : SenderEvent) : Prop :=
  e.isPin = true → s.sender.service.busy = true → s.asked = true

omit [Qt] in
structure Inv (s : Handshake) : Prop where
  tidy : s.sender.Tidy
  phased : Phased s.granted s.sender
  asked : s.asked = true → s.sender.service.busy = true ∧ s.sender.service.reply = none

variable {s : Handshake} {e : SenderEvent}

omit [Qt] in
theorem Inv.patient (h : s.Inv) (hp : s.Prompted e) : s.sender.Patient e := by
  cases e with
  | submitPin pin => exact fun hb hpin => (h.asked (hp (decide_eq_true hpin) hb)).2
  | _ => trivial

theorem emitted_eq {l : List TransferSignal} (h : (s.sender.step e).signals = s.sender.signals ++ l) :
    s.emitted e = l := by
  rw [emitted, h, List.drop_left]

/-- Nothing is emitted: a PIN that is asked for is still to be entered, unless it was. -/
theorem asked_quiet (h : (s.sender.step e).signals = s.sender.signals) :
    (s.next e).asked = (s.asked && !e.isPin) := by
  have hnil : s.emitted e = [] := emitted_eq (by rw [h, List.append_nil])
  simp only [next, hnil, List.getLast?_nil]

theorem Inv.step (h : s.Inv) (hp : s.Prompted e) : (s.next e).Inv := by
  have hpatient := h.patient hp
  refine ⟨h.tidy.step hpatient, h.phased.step h.tidy hpatient, fun hasked => ?_⟩
  cases hb : s.sender.service.busy with
  | false =>
    have hnot : s.asked = false := eq_false_of_ne_true fun ha => by
      cases hb.symm.trans (h.asked ha).1
    rcases idle_turn h.tidy hb e with ⟨-, hsignals, -⟩ | ⟨-, hsignals, -⟩
    · rw [asked_quiet hsignals, hnot] at hasked
      cases hasked
    · rw [asked_quiet hsignals, hnot] at hasked
      cases hasked
  | true =>
    cases step_turn h.tidy (h.phased hb) hpatient with
    | holds hservice hsignals _ _ _ _ =>
      rw [asked_quiet hsignals] at hasked
      change (s.sender.step e).service.busy = true ∧ (s.sender.step e).service.reply = none
      rw [hservice]
      exact h.asked (Bool.and_eq_true_iff.1 hasked).1
    | asksAgain hpin hsignals _ _ _ =>
      rw [asked_quiet hsignals, hpin, Bool.not_true, Bool.and_false] at hasked
      cases hasked
    | prompts retry _ _ hnone hasks _ => exact ⟨hasks.busy, hnone⟩
    | goes hwaits hgoes _ _ =>
      rw [asked_quiet hgoes.signals] at hasked
      exact absurd (h.asked (Bool.and_eq_true_iff.1 hasked).1).2 hwaits
    | ends hends _ _ =>
      obtain ⟨before, status, files, -, hsignals⟩ := hends.signals
      simp only [next, emitted_eq hsignals, List.getLast?_append, List.getLast?_singleton,
        Option.some_or] at hasked
      cases hasked

theorem Inv.start (h : system.start s) : s.Inv := by
  obtain ⟨hstart, hasked, -⟩ := h
  refine ⟨hstart.tidy, fun hb => ?_, fun ha => by cases hasked.symm.trans ha⟩
  rw [hstart.service] at hb
  cases hb

/-- After `cancel` nothing of the transfer is under way. -/
theorem Inv.cancelled (h : s.Inv) : (s.next .cancel).sender.Rests := by
  have hidle : (s.sender.step .cancel).service.busy = false := by
    cases hb : s.sender.service.busy with
    | false =>
      have hsame : s.sender.step .cancel = s.sender := if_pos (by simp [hb])
      rw [hsame]
      exact hb
    | true => exact (cancel_ends hb).1.busy
  have hnext : (s.next .cancel).Inv := h.step (e := .cancel) nofun
  exact hnext.tidy.rests (.inr hidle)

/-- The requests of a transfer have numbers from `first` on. -/
structure Since (first : ReplyId) (s : Handshake) : Prop extends Inv s where
  next : first ≤ s.sender.nextReply
  numbers : ∀ id r, s.sender.replies id = some r → r.request.slot.isTransfer = true → first ≤ id

theorem Since.step {first : ReplyId} (h : Since first s) (hp : s.Prompted e) :
    Since first (s.next e) := by
  have hforward := step_forward e s.sender
  refine ⟨h.toInv.step hp, Nat.le_trans h.next hforward.next, fun id r hr ht => ?_⟩
  rcases hforward.back id r hr with ⟨q, hq, heq⟩ | hid
  · exact h.numbers id q hq (heq ▸ ht)
  · exact Nat.le_trans h.next hid

/-- At most one request of a transfer is under way; the rows go up in order, and only those that
have a token; at the end each of these went up or could not be opened; and a reply to what was
posted before the end of a `cancel` does nothing to a later transfer. -/
theorem uploads_in_turn (h : Lib.ReachedBy system Prompted s) :
    (∀ id id' r r', s.sender.replies id = some r → s.sender.replies id' = some r' →
      r.request.slot.isTransfer = true → r'.request.slot.isTransfer = true → id = id') ∧
    (s.sender.service.busy = true → (uploads s.sender.log).Pairwise (· < ·) ∧
      ∀ row ∈ uploads s.sender.log, row < s.sender.transfer.fileCount ∧
        tokenFor s.granted (s.sender.transfer.entry row).id ≠ []) ∧
    (∀ e, s.Prompted e → s.sender.GoesOn e → s.sender.service.busy = true →
      (s.next e).sender.service.busy = false → ∀ row < (s.next e).sender.transfer.fileCount,
        tokenFor (s.next e).granted ((s.next e).sender.transfer.entry row).id ≠ [] →
          row ∈ uploads (s.next e).sender.log ∨
            ((s.next e).sender.transfer.entry row).status = .failed ∧
              ((s.next e).sender.transfer.entry row).error = str "Could not open the file") ∧
    (∀ t, Lib.ReachedBy (system.onward (s.next .cancel)) Prompted t → ∀ e id,
      e.replyId = some id → id < (s.next .cancel).sender.nextReply →
        (t.next e).sender.transfer = t.sender.transfer ∧
          (t.next e).sender.service = t.sender.service) := by
  have hinv : s.Inv := h.invariant (I := Inv) (fun _ => Inv.start) fun _ _ hi hok => hi.step hok
  refine ⟨fun id id' r r' hr hr' ht ht' => ?_, fun hb => ?_, fun e hp hon hb hidle row hrow htoken => ?_,
    fun t ht e id hid hlt => ?_⟩
  · have hreply := (hinv.tidy.waited id r hr ht).1
    exact Option.some.inj (hreply.symm.trans (hinv.tidy.waited id' r' hr' ht').1)
  · rcases hinv.phased hb with hasks | hclimbs
    · rw [hasks.uploads]
      exact ⟨.nil, nofun⟩
    · obtain ⟨row, -, hmarch⟩ := hclimbs.march
      refine ⟨hmarch.increasing, fun row hrow => ?_⟩
      obtain ⟨hlt, htoken⟩ := hmarch.granted row hrow
      exact ⟨hlt, hmarch.token row hlt ▸ htoken⟩
  · have hserved : Served (tokenFor (s.next e).granted) (s.next e).sender := by
      cases step_turn hinv.tidy (hinv.phased hb) (hinv.patient hp) with
      | holds hservice _ _ _ _ _ =>
        change (s.sender.step e).service.busy = false at hidle
        rw [hservice, hb] at hidle
        cases hidle
      | asksAgain _ _ _ hasks _ => cases hasks.busy.symm.trans hidle
      | prompts _ _ _ _ hasks _ => cases hasks.busy.symm.trans hidle
      | goes _ hgoes _ _ => cases hgoes.busy.symm.trans hidle
      | ends _ _ hserved => exact hserved hon
    obtain ⟨hgranted, haccounted⟩ := hserved row hrow
    exact haccounted.tried (hgranted ▸ htoken)
  · have hcancelled := hinv.cancelled
    have hsince : Since (s.next .cancel).sender.nextReply t := by
      refine ht.invariant (fun t ht => ?_) fun t e hi hok => hi.step hok
      obtain rfl : t = s.next .cancel := ht
      refine ⟨hinv.step (e := .cancel) nofun, Nat.le_refl _, fun id r hr htransfer => ?_⟩
      cases (hcancelled.none id r hr).symm.trans htransfer
    refine step_unrelated hid fun r hr => eq_false_of_ne_true fun htransfer => ?_
    exact absurd (hsince.numbers id r hr htransfer) (Nat.not_le_of_lt hlt)

end

/-! ## Two files for a laptop that asks for a PIN -/

def bothDocuments : QString → Option LocalFile := fun path =>
  if path = str "/d/b.txt" then some ⟨ascii "bye", str "text/plain", true⟩
  else documentsFolder path

/-- The laptop takes both files. -/
def laptopGrant : QJsonObject := [
  (str "files", .object [
    (str "0-000000000000", .string (str "cd34")),
    (str "1-010101010101", .string (str "ef56"))]),
  (str "sessionId", .string (str "ab12"))]

/-- The PIN is asked for once, and the first file has gone up. -/
def bothEvents : List SenderEvent := [
  .start true,
  .datagram (announcement (str "http")) (str "10.0.0.3"),
  .hold 0,
  .sendFiles { DeviceInfo.fromPayload (announcement (str "http")) with
    address := str "10.0.0.3" } [str "/d/a.txt", str "/d/b.txt"],
  .connects 0 [] false,
  .answered 0 false 401 [] [],
  .submitPin (str "1234"),
  .connects 1 [] false,
  .answered 1 false 200 [] (Ascii.json laptopGrant),
  .connects 2 [] false,
  .answered 2 false 200 [] []]

section

local instance promptedQt : Qt := Ascii.qt [(Ascii.json laptopGrant, laptopGrant)] []

theorem both_in_turn : ∃ s : Handshake, s.sender.service.busy = true ∧
    uploads s.sender.log = [0, 1] ∧ ∀ row ∈ [0, 1],
      tokenFor s.granted (s.sender.transfer.entry row).id ≠ [] := by
  let first : Handshake := ⟨fresh .trusting bothDocuments, false, []⟩
  have hok : Lib.Allowed system Prompted first bothEvents := by
    refine ⟨nofun, nofun, nofun, nofun, nofun, nofun, fun _ _ => ?_, nofun, nofun, nofun, nofun,
      trivial⟩
    decide +kernel
  have hstart : system.start first := ⟨fresh_start _ _, rfl, rfl⟩
  have h := Lib.ReachedBy.run bothEvents (.start hstart) hok
  have hbusy : (bothEvents.foldl system.next first).sender.service.busy = true := by
    decide +kernel
  have hrows : uploads (bothEvents.foldl system.next first).sender.log = [0, 1] := by
    decide +kernel
  refine ⟨_, hbusy, hrows, fun row hrow => ?_⟩
  exact (((uploads_in_turn h).2.1 hbusy).2 row (hrows ▸ hrow)).2

end

end Handshake

end LocalSend
