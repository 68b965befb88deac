import LocalSend.App.Run
import LocalSend.Receive.Proof.Authority
import LocalSend.Receive.Proof.Disk
import LocalSend.Send.Proof.Blocked
import LocalSend.Send.Proof.Pinned
import LocalSend.Send.Proof.Uploads

/-!
# Whose transfer it is

Both services write to one transfer model, each by row numbers of its own. `App.Owned`: at most one
of them has a transfer in progress, and the rows it holds are rows of that transfer. Neither asks
for the other before it runs `begin`, so this is up to the run (`Orderly`): no prepare-upload is
taken while something is sent, and nothing is sent while a request waits or a session is open.
-/

set_option autoImplicit false

namespace LocalSend

/-- How often the receive service has run `begin`. -/
def Log.begins (log : List Effect) : Nat := log.countP fun e => e.asked?.isSome

namespace World

variable [Qt] {g : Guard} {w v : World}

/-- Where nobody waits, no session is open, and no prepare-upload is taken, it stays so. -/
structure Rests (w v : World) : Prop where
  idle : ¬ v.Busy
  declared : v.transfer.declared = w.transfer.declared
  begins : Log.begins v.log = Log.begins w.log

theorem Act.rests (ha : Act g w v) (h : w.Inv) (hidle : ¬ w.Busy) (hg : ∀ c, ¬ g.park c) :
    w.Rests v where
  idle := by
    obtain ⟨hp, hs⟩ := not_or.1 hidle
    obtain ⟨hpending, hsession⟩ := ha.engaged hg
    refine not_or.2 ⟨not_not.2 ?_, not_not.2 ?_⟩
    · exact hpending.elim (fun hx => hx.trans (not_not.1 hp)) id
    · rcases hsession with hx | hx | hx
      · exact hx.trans (not_not.1 hs)
      · exact hx
      · exact absurd hx hp
  declared := by
    rcases ha.declared h with hd | ⟨i, -, hpark⟩
    · exact hd.1
    · exact absurd hpark (hg _)
  begins := by
    obtain ⟨l, hl, hentries⟩ := ha.entries h
    have hnone : l.countP (fun e => e.asked?.isSome) = 0 := by
      refine List.countP_eq_zero.2 fun e he hsome => ?_
      obtain ⟨i, hi⟩ := (hentries e he).1 (Option.isSome_iff_ne_none.1 hsome)
      exact hg _ hi
    rw [hl, Log.begins, List.countP_append, hnone]
    rfl

theorem Acts.rests (ha : Acts g w v) (h : w.Inv) (hidle : ¬ w.Busy) (hg : ∀ c, ¬ g.park c) :
    w.Rests v := by
  refine (ha.keep (P := fun u => u.Inv ∧ w.Rests u) (fun hact hu => ⟨hact.inv hu.1, ?_⟩)
    ⟨h, hidle, rfl, rfl⟩).2
  have hrests := hact.rests hu.1 hu.2.idle hg
  exact ⟨hrests.idle, hrests.declared.trans hu.2.declared, hrests.begins.trans hu.2.begins⟩

/-- No prepare-upload is taken. -/
def unasked : Guard := { Guard.all with park := fun _ => False }

/-- The segment is not the end of a prepare-upload that passes every check. -/
def Untaken (w : World) (e : Event) : Prop :=
  ∀ i data, e = .readyRead i data → w.Completes i data → ¬ (w.heard i data).Takes i

theorem step_rests (h : w.Inv) (hidle : ¬ w.Busy) {e : Event} (he : w.Untaken e) :
    w.Rests (w.step e) := by
  have hpermits : Permits unasked w e := { permits_all w e with
    serves := fun i data heq hc _ => { (permits_all w e).serves i data heq hc ‹_› with
      park := fun ht => he i data heq hc ht } }
  exact (step_acts h e hpermits).rests h hidle fun _ => id

/-- The invariant says nothing of the rows while the service is idle. -/
theorem Inv.lent {s : Sender} (h : w.Inv) (hs : s.transfer = w.transfer ∨ ¬ w.Busy) :
    (s.lend w).Inv := by
  rcases hs with hs | hidle
  · refine h.calm (v := s.lend w) { Calm.refl w with
      declared := congrArg TransferModel.declared hs
      shown := congrArg TransferModel.shown hs }
      (fun i => (HttpConnection.Step.refl _).follows) rfl rfl
  · have hsession : w.sessionId = [] := not_not.1 (not_or.1 hidle).2
    have hup := h.no_uploads hsession
    exact h.of_session (v := s.lend w)
      { h.toSessionInv with recalls := fun hb => absurd hb hidle } rfl hup hup

end World

namespace App

section
variable [Qt] {a : App}

/-- One service runs `begin` only where the other has nothing in progress, and the PIN comes when
nothing is waited for. -/
def Orderly (a : App) : AppEvent → Prop
  | .incoming e => a.sender.service.busy = true → a.receiver.Untaken e
  | .outgoing e => a.sender.Patient e ∧
    (a.receiver.Busy → ∀ device paths, e = .sendFiles device paths → ¬ a.sender.Begins device paths)

/-- At most one service has a transfer in progress. -/
structure Owned (a : App) : Prop where
  receiver : a.receiver.Inv
  sender : a.sender.Tidy
  one : ¬ (a.receiver.Busy ∧ a.sender.service.busy = true)

theorem Owned.step (h : a.Owned) {e : AppEvent} (he : a.Orderly e) : (a.step e).Owned := by
  have hshared := a.shared.transfer
  cases e with
  | incoming e =>
    have hinv : (a.receiver.step e).Inv :=
      (World.step_acts h.receiver e (World.permits_all _ e)).inv h.receiver
    by_cases hb : a.sender.service.busy = true
    · have hrests := World.step_rests h.receiver (fun hw => h.one ⟨hw, hb⟩) (he hb)
      refine ⟨hinv, h.sender.congr rfl rfl (fun _ => rfl) ?_, fun hboth => hrests.idle hboth.1⟩
      exact hrests.declared.trans (congrArg TransferModel.declared hshared)
    · have hidle := h.sender.rests (.inr (eq_false_of_ne_true hb))
      refine ⟨hinv, Sender.Rests.tidy ⟨hidle.fresh, hidle.none⟩ (h.sender.closed hidle)
        h.sender.lasting, fun hboth => hb hboth.2⟩
  | outgoing e =>
    simp only [App.step]
    split
    · exact h
    · refine ⟨h.receiver.lent ?_, h.sender.step he.1, fun hboth => ?_⟩
      · by_cases hw : a.receiver.Busy
        · have hb : a.sender.service.busy = false := eq_false_of_ne_true fun hb => h.one ⟨hw, hb⟩
          exact .inl ((h.sender.idle_step hb (he.2 hw)).1.trans hshared.symm)
        · exact .inr hw
      · have hw : a.receiver.Busy := hboth.1
        have hb : a.sender.service.busy = false := eq_false_of_ne_true fun hb => h.one ⟨hw, hb⟩
        cases hboth.2.symm.trans (h.sender.idle_step hb (he.2 hw)).2

theorem Start.owned (h : a.Start) : a.Owned where
  receiver := World.Start.inv h.receiver
  sender := h.sender.tidy
  one hboth := hboth.1.elim (fun hx => hx h.receiver.pending) fun hx => hx h.receiver.sessionId

/-- The rows that a service holds: of an upload that is received, of the file that is sent. -/
structure RowsHeld (a : App) : Prop where
  received : ∀ i u, a.receiver.uploads.lookup i = some u →
    u.row < a.transfer.fileCount ∧ (a.transfer.entry u.row).id = (a.receiver.conns i).fileId
  sent : ∀ id r row, a.sender.replies id = some r → r.request.slot = .uploaded row →
    a.sender.Names r.request row
  current : a.sender.service.currentFile ≠ none →
    ∃ id r row, a.sender.replies id = some r ∧ r.request.slot = .uploaded row

theorem Owned.rowsHeld (h : a.Owned) : a.RowsHeld where
  received i u hu := TransferModel.entry_of_indexOfFile (h.receiver.served i u hu).found
  sent := h.sender.row
  current := h.sender.file

/-- In an orderly run at most one service has a transfer in progress; while one has, the other does
not run `begin` nor touch the rows otherwise; and the rows held are rows of the transfer. -/
theorem one_owner (h : Lib.ReachedBy system Orderly a) :
    ¬ (a.receiver.Busy ∧ a.sender.service.busy = true) ∧
    (∀ e, a.Orderly (.incoming e) → a.sender.service.busy = true →
      Log.begins (a.step (.incoming e)).receiver.log = Log.begins a.receiver.log ∧
        (a.step (.incoming e)).transfer.declared = a.transfer.declared) ∧
    (∀ e, a.Orderly (.outgoing e) → a.receiver.Busy →
      (a.step (.outgoing e)).transfer = a.transfer) ∧
    a.RowsHeld := by
  have howned : a.Owned :=
    h.invariant (I := Owned) (fun _ hs => Start.owned hs) fun _ e hv he => hv.step he
  refine ⟨howned.one, fun e he hb => ?_, fun e he hw => ?_, howned.rowsHeld⟩
  · have hrests := World.step_rests howned.receiver (fun hw => howned.one ⟨hw, hb⟩) (he hb)
    exact ⟨hrests.begins, hrests.declared⟩
  · have hb : a.sender.service.busy = false := eq_false_of_ne_true fun hb => howned.one ⟨hw, hb⟩
    unfold App.step
    simp only
    split
    · rfl
    · exact (howned.sender.idle_step hb (he.2 hw)).1.trans a.shared.transfer.symm

/-- Without a PIN, sending is orderly as long as nothing is received. -/
theorem allowed_outgoing {a : App} (h : ¬ a.receiver.Busy) {events : List SenderEvent}
    (hpin : ∀ e ∈ events, ∀ pin, e ≠ .submitPin pin) :
    Lib.Allowed system Orderly a (events.map .outgoing) := by
  induction events generalizing a with
  | nil => trivial
  | cons e events ih =>
    refine ⟨⟨?_, fun hw => absurd hw h⟩, ih ?_ fun e' he' => hpin e' (List.mem_cons_of_mem _ he')⟩
    · cases e with
      | submitPin pin => exact absurd rfl (hpin _ List.mem_cons_self pin)
      | _ => trivial
    · change ¬ (a.step (.outgoing e)).receiver.Busy
      unfold App.step
      simp only
      split
      · exact h
      · exact h

end

/-! ## A run in which one file is sent, and one in which it is sent too soon -/

def helloStart : App :=
  ⟨World.helloStart, Sender.fresh .trusting Sender.documentsFolder, ⟨rfl, rfl, rfl, rfl, rfl, rfl⟩⟩

theorem helloStart_start : helloStart.Start :=
  ⟨World.helloStart_start, Sender.fresh_start .trusting Sender.documentsFolder⟩

def laptop : DeviceInfo :=
  { DeviceInfo.fromPayload (Sender.laptopPayload false) with address := str "10.0.0.3" }

/-- The user sends a file to a laptop that was found. -/
def sendHello : List SenderEvent := [
  .start true,
  .datagram (Sender.laptopPayload false) (str "10.0.0.3"),
  .hold 0,
  .sendFiles laptop [str "/d/a.txt"]]

/-- The laptop takes the file. -/
def grant : QJsonObject := [
  (str "files", .object [(str "0-000000000000", .string (str "cd34"))]),
  (str "sessionId", .string (str "ab12"))]

section

local instance ownedQt : Qt := Ascii.qt [
  (Ascii.json World.oneFile, World.oneFile),
  (Ascii.json grant, grant)] []

theorem hello_owned : ∃ a : App, a.sender.service.currentRow = some 0 ∧
    a.sender.service.currentFile ≠ none ∧ a.RowsHeld := by
  let events : List SenderEvent := sendHello ++ [
    .connects 0 [] false,
    .answered 0 false 200 [] (Ascii.json grant)]
  have hidle : ¬ helloStart.receiver.Busy := not_or.2 ⟨not_not.2 rfl, not_not.2 rfl⟩
  have hreached : Lib.ReachedBy system Orderly ((events.map .outgoing).foldl step helloStart) :=
    Lib.ReachedBy.run _ (.start helloStart_start) (allowed_outgoing hidle (by simp [events, sendHello]))
  exact ⟨_, by decide +kernel, by decide +kernel, (one_owner hreached).2.2.2⟩

/-- The row, if it is not that of the file that the upload of `i` is for. -/
def strayRow (a : App) (i : ConnId) : Option Nat :=
  ((a.receiver.uploads.lookup i).map (·.row)).filter fun row =>
    (a.transfer.entry row).id ≠ (a.receiver.conns i).fileId

/-- A file is sent while one is received: the row of the upload that is under way is now that of the
file being sent. -/
theorem upload_dispossessed : ∃ a : App, Lib.Reached system a ∧ a.receiver.Busy ∧
    a.sender.service.busy = true ∧ ∃ u, a.receiver.uploads.lookup 1 = some u ∧
      (a.transfer.entry u.row).id ≠ (a.receiver.conns 1).fileId := by
  let events : List AppEvent := ((World.helloEvents World.oneFile).take 4).map .incoming ++
    .incoming (.readyRead 1 World.helloUpload.dropLast) :: sendHello.map .outgoing
  have hreached : Lib.Reached system (events.foldl step helloStart) :=
    Lib.ReachedBy.run_any events (.start helloStart_start)
  have hsession : (events.foldl step helloStart).receiver.sessionId ≠ [] := by decide +kernel
  have hbusy : (events.foldl step helloStart).sender.service.busy = true := by decide +kernel
  have hstray : strayRow (events.foldl step helloStart) 1 = some 0 := by decide +kernel
  generalize events.foldl step helloStart = a at hreached hsession hbusy hstray
  obtain ⟨hrow, hne⟩ := Option.filter_eq_some_iff.1 hstray
  obtain ⟨u, hu, hu0⟩ := Option.map_eq_some_iff.1 hrow
  rw [← hu0] at hne
  exact ⟨a, hreached, .inr hsession, hbusy, u, hu, of_decide_eq_true hne⟩

end

end App

end LocalSend
