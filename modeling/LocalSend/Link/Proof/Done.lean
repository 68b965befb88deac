import LocalSend.Lib.LastSplit
import LocalSend.Link.Proof.Agreement
import LocalSend.Receive.Proof.Authority
import LocalSend.Send.Proof.Blocked
import LocalSend.Send.Proof.Pinned

/-!
# What is done there is stored here

In every run of a sender and a receiver, a row that the sending side takes for done was stored by
the receiving side before: under its id, with the bytes that were read for it in the session in
force, and the row it was stored for had become done as well (`done_was_stored`).
-/

set_option autoImplicit false

namespace LocalSend

namespace Pair

section
variable [Qt] {p : Pair}

theorem next_receiver (p : Pair) (e : PairEvent) :
    (p.next e).receiver = p.receiver ∨ ∃ d, (p.next e).receiver = p.receiver.step d := by
  cases e with
  | sender d => exact .inl rfl
  | receiver d => exact .inr ⟨d, rfl⟩
  | connect id certificate reported address client stream =>
    simp only [next]
    split
    · split
      · exact .inr ⟨.connect address client, rfl⟩
      · exact .inl rfl
    · exact .inl rfl
  | deliver i n =>
    simp only [next]
    split
    · rename_i x _
      split
      · exact .inr ⟨.readyRead i ((x.stream.drop x.arrived).take n), rfl⟩
      · exact .inl rfl
    · exact .inl rfl
  | answer i r error errorString body =>
    simp only [next]
    split <;> exact .inl rfl

theorem Unrepeated.back {e : PairEvent} (hr : (p.next e).Unrepeated) (hp : p.receiver.Inv) :
    p.Unrepeated := by
  unfold Unrepeated at hr ⊢
  rcases next_receiver p e with heq | ⟨d, heq⟩
  · rwa [heq] at hr
  · obtain ⟨hrandom, hdrawn⟩ := World.step_drawn hp d
    rw [heq, hrandom] at hr
    exact fun j hj k hk => hr j (Nat.lt_of_lt_of_le hj hdrawn) k (Nat.lt_of_lt_of_le hk hdrawn)

theorem reached_linked (h : Lib.ReachedBy system Fair p) (hr : p.Unrepeated)
    (hlegible : Legible) : Linked p := by
  have hboth : p.receiver.Inv ∧ (p.Unrepeated → Linked p) := by
    refine Lib.ReachedBy.invariant (S := system)
      (I := fun p => p.receiver.Inv ∧ (p.Unrepeated → Linked p))
      (fun p hp => ⟨hp.receiver.inv, fun _ => hp.linked⟩) (fun p e hp he => ?_) h
    have hinv : (p.next e).receiver.Inv := by
      rcases next_receiver p e with heq | ⟨d, heq⟩
      · exact heq.symm ▸ hp.1
      · exact heq.symm ▸ (World.step_acts hp.1 d (World.permits_all p.receiver d)).inv hp.1
    refine ⟨hinv, fun hr => ?_⟩
    have hr := Unrepeated.back hr hp.1
    exact (hp.2 hr).next hr hlegible he
  exact hboth.2 hr

theorem reached_next (h : Lib.ReachedBy system Fair p) {e : PairEvent} (he : p.Fair e) :
    Lib.ReachedBy system Fair (p.next e) := .next e h he

/-- A row that is done on the sending side went up with the size it states, in the session in force
if the transfer was under way, and was stored before. -/
theorem done_was_stored (h : Lib.ReachedBy system Fair p) (hr : p.Unrepeated)
    (hlegible : Legible) {e : PairEvent} (he : p.Fair e) {row : Nat}
    (hrow : row < (p.next e).sender.transfer.fileCount)
    (hdone : ((p.next e).sender.transfer.entry row).status = .done) :
    ∃ s ∈ Sender.shipments (p.next e).sender.log, s.row = row ∧
      s.fileId = ((p.next e).sender.transfer.entry row).id ∧
      s.size = ((p.next e).sender.transfer.entry row).size ∧ s.content.length = s.size ∧
      (p.sender.service.busy = true → s.sessionId = p.sender.service.sessionId) ∧
      p.receiver.Stored s.fileId s.content := by
  have hp := reached_linked h hr hlegible
  obtain ⟨K, hK⟩ : ∃ K : Shipment → Prop, ∀ s, K s ↔ p.receiver.Stored s.fileId s.content ∧
      (p.sender.service.busy = true → s.sessionId = p.sender.service.sessionId) :=
    ⟨_, fun _ => Iff.rfl⟩
  have hkept : Sender.Books p.Given K p.sender := { hp.books with
    done := fun row hrow hdone => by
      obtain ⟨s, hs, hsrow, hid, hsize, hsession, hstored⟩ := hp.books.done row hrow hdone
      exact ⟨s, hs, hsrow, hid, hsize, hsession, (hK s).2 ⟨hstored, hsession⟩⟩ }
  -- Nothing is stored, and no session begins, in the step in which a row becomes done.
  have hbooks : Sender.Books (p.next e).Given K (p.next e).sender := by
    have hgiven : ∀ s, p.Given s → (p.next e).Given s :=
      fun _ hg => hp.given_later (hp.later_next e) hg
    rcases hp.plays hr hlegible he with heq | ⟨d, heq, -, hintact, hpromised⟩
    · rw [heq]
      exact hkept.mono hgiven fun _ hk => hk
    · rw [heq]
      refine hkept.step hp.tidy hp.posted hp.offering hintact hgiven (fun _ hk => hk)
        { hpromised with
          vouches := fun id r status errorString body hd hr hsent hle hlt s hs =>
            (hK s).2 ⟨?_, fun _ => ?_⟩ }
      · obtain ⟨-, -, -, -, hstored⟩ :=
          hpromised.vouches id r status errorString body hd hr hsent hle hlt s hs
        exact hstored
      · obtain ⟨s', -, hs', -, -, -, -, hsession⟩ :=
          hp.posted.shipped hp.tidy hr (content_of_shipment hs).1
        obtain rfl := Option.some.inj (hs.symm.trans hs')
        exact hsession
  obtain ⟨s, hs, hsrow, hid, hsize, -, hk⟩ := hbooks.done row hrow hdone
  obtain ⟨hstored, hsession⟩ := (hK s).1 hk
  exact ⟨s, hs, hsrow, hid, hsize, hbooks.whole s hs, hsession, hstored⟩

end

end Pair

/-! ## A file that goes up -/

/-- The text of an answer ends with the session. -/
theorem json_acceptance (sessionId : QString) (tokens : AList fun _ : QString => QString) :
    ∃ pre, Ascii.json (acceptance sessionId tokens) =
      pre ++ 34 :: sessionId.map (·.toUInt8) ++ [34, 125] := by
  refine ⟨123 :: (Ascii.quoted (str "files") ++ 58 ::
    Ascii.value (.object (tokens.entries.map fun e => (e.1, .string e.2)))) ++
      44 :: (Ascii.quoted (str "sessionId") ++ [58]), ?_⟩
  simp [Ascii.json, acceptance, Ascii.members, Ascii.joined, Ascii.value, Ascii.quoted,
    List.intercalate]

theorem quote_notMem_of_hex {s : QString} (hs : ∀ c ∈ s, Crypto.isHexChar c = true) :
    (34 : UInt8) ∉ s.map (·.toUInt8) := by
  intro hmem
  obtain ⟨c, hc, heq⟩ := List.mem_map.1 hmem
  have hlt := (Crypto.plainChar_of_hex (hs c hc)).1
  have hnat := congrArg UInt8.toNat heq
  simp only [UInt16.toNat_toUInt8, UInt8.reduceToNat] at hnat
  obtain rfl : c = 34 := UInt16.toNat_inj.1 (by simp only [UInt16.reduceToNat]; omega)
  exact absurd (hs 34 hc) (by decide)

theorem json_acceptance_inj {s s' : QString} {tokens tokens' : AList fun _ : QString => QString}
    (hs : ∀ c ∈ s, Crypto.isHexChar c = true) (hs' : ∀ c ∈ s', Crypto.isHexChar c = true)
    (h : Ascii.json (acceptance s tokens) = Ascii.json (acceptance s' tokens')) : s = s' := by
  obtain ⟨pre, hpre⟩ := json_acceptance s tokens
  obtain ⟨pre', hpre'⟩ := json_acceptance s' tokens'
  rw [hpre, hpre'] at h
  have h := List.append_cancel_right h
  have hsplit : Lib.Splits 34 (pre ++ 34 :: s.map (·.toUInt8)) pre (s.map (·.toUInt8)) :=
    ⟨rfl, quote_notMem_of_hex hs⟩
  have hsplit' : Lib.Splits 34 (pre ++ 34 :: s.map (·.toUInt8)) pre' (s'.map (·.toUInt8)) :=
    ⟨h, quote_notMem_of_hex hs'⟩
  exact Crypto.toUInt8_inj (fun c hc => (Crypto.plainChar_of_hex (hs c hc)).1)
    (fun c hc => (Crypto.plainChar_of_hex (hs' c hc)).1) (hsplit.unique hsplit').2.symm

namespace Pair

/-- What is asked for the file of `documentsFolder`, and what is answered. -/
def helloList : QJsonObject := [
  (str "files", .object [(str "0-000000000000", .object [
    (str "fileName", .string (str "a.txt")),
    (str "fileType", .string (str "text/plain")),
    (str "id", .string (str "0-000000000000")),
    (str "size", .double 5)])]),
  (str "info", .object AppSettings.trusting.self.toRegisterBody)]

def helloSession : QString := Crypto.generateToken countingSource 0

def helloToken : QString := Crypto.generateToken countingSource 1

def helloGrant : QJsonObject := acceptance helloSession
  ((∅ : AList fun _ : QString => QString).insert (str "0-000000000000") helloToken)

/-- JSON as it is for the two documents; any other text is none. -/
def helloText (o : QJsonObject) : QByteArray :=
  if Ascii.json o = Ascii.json helloList ∨ Ascii.json o = Ascii.json helloGrant then Ascii.json o
  else [0]

def helloStart : Pair where
  sender := Sender.fresh .trusting Sender.documentsFolder
  receiver := World.fresh { AppSettings.trusting with
    randomFingerprint := str "AB12" } .obliging countingSource
  wires := []

def laptop : DeviceInfo :=
  { DeviceInfo.fromPayload (Sender.laptopPayload false) with address := str "10.0.0.3" }

def response (payload : QByteArray) : Response := ⟨200, ascii "application/json", [], payload⟩

section

local instance helloQt : Qt :=
  { Ascii.qt [(Ascii.json helloList, helloList), (Ascii.json helloGrant, helloGrant)] [] with
    toJson := helloText }

theorem helloText_acceptance {sessionId : QString} (tokens : AList fun _ : QString => QString)
    (h : ∀ c ∈ sessionId, Crypto.isHexChar c = true) :
    helloText (acceptance sessionId tokens) = Ascii.json helloGrant ∧ sessionId = helloSession ∨
      helloText (acceptance sessionId tokens) = [0] := by
  unfold helloText
  split
  · rename_i hor
    rcases hor with heq | heq
    · obtain ⟨pre, hpre⟩ := json_acceptance sessionId tokens
      have hlast : [34, 125] <:+ Ascii.json helloList := ⟨_, (heq.symm.trans hpre).symm⟩
      exact absurd hlast (by decide +kernel)
    · exact .inl ⟨heq, json_acceptance_inj h (Crypto.generateToken_isHexChar _ _) heq⟩
  · exact .inr rfl

theorem helloQt_legible : Legible := by
  intro sessionId tokens text response hhex hfront hread
  have hdocument : text = Ascii.json helloList ∨
      text = Ascii.json helloGrant ∧ response = helloGrant := by
    change List.lookup text [(Ascii.json helloList, helloList),
      (Ascii.json helloGrant, helloGrant)] = some response at hread
    rw [List.lookup_cons, List.lookup_cons] at hread
    split at hread
    · rename_i hlist
      exact .inl (beq_iff_eq.1 hlist)
    · split at hread
      · rename_i hgrant
        exact .inr ⟨beq_iff_eq.1 hgrant, (Option.some.inj hread).symm⟩
      · cases hread
  change text <+: helloText (acceptance sessionId tokens) at hfront
  rcases helloText_acceptance tokens hhex with ⟨heq, rfl⟩ | heq
  · rw [heq] at hfront
    rcases hdocument with rfl | ⟨-, rfl⟩
    · exact absurd hfront (by decide +kernel)
    · rfl
  · rw [heq] at hfront
    rcases hdocument with rfl | ⟨rfl, -⟩
    · exact absurd hfront (by decide +kernel)
    · exact absurd hfront (by decide +kernel)

/-- The laptop is found, and a file is to go to it. -/
def helloFound : Pair := [
  .receiver .startListening,
  .sender (.start true),
  .sender (.datagram (Sender.laptopPayload false) (str "10.0.0.3")),
  .sender (.hold 0),
  .sender (.sendFiles laptop [str "/d/a.txt"])].foldl next helloStart

def offering : PairEvent := .connect 0 [] false (str "10.0.0.2") none
  (post World.prepareTarget (Ascii.json helloList))

/-- The file is offered. -/
def helloOffered : Pair := (helloFound.next offering).next (.deliver 0 1000)

def granting : PairEvent :=
  .answer 0 (response (Ascii.json helloGrant)) false [] (Ascii.json helloGrant)

/-- The laptop takes the file. -/
def helloGranted : Pair := helloOffered.next granting

def uploading : PairEvent := .connect 1 [] false (str "10.0.0.2") none
  (post (uploadTarget helloSession (str "0-000000000000") helloToken) (ascii "hello"))

/-- The file goes up. -/
def helloUploaded : Pair := (helloGranted.next uploading).next (.deliver 1 1000)

def ending : PairEvent := .answer 1 (response []) false [] []

theorem helloUploaded_reached : Lib.ReachedBy system Fair helloUploaded := by
  have hstart : system.start helloStart :=
    ⟨Sender.fresh_start _ _, World.fresh_start _ _ (by decide), rfl⟩
  have hfound : Lib.ReachedBy system Fair helloFound := by
    refine Lib.ReachedBy.run (S := system) _ (.start hstart) ?_
    exact ⟨⟨nofun, nofun⟩, ⟨trivial, trivial, nofun⟩, ⟨trivial, trivial, nofun⟩,
      ⟨trivial, trivial, nofun⟩, ⟨trivial, trivial, nofun⟩, trivial⟩
  have hlist : ∀ r ∈ helloFound.sender.replies 0, r.request.content.Carries
      (post World.prepareTarget (Ascii.json helloList)) := by decide +kernel
  have hgrant : Message.response (response (Ascii.json helloGrant)) ∈
      (helloOffered.receiver.conns 0).sent := by decide +kernel
  have hfile : ∀ r ∈ helloGranted.sender.replies 1, r.request.content.Carries
      (post (uploadTarget helloSession (str "0-000000000000") helloToken) (ascii "hello")) := by
    decide +kernel
  have hoffered : Lib.ReachedBy system Fair helloOffered :=
    reached_next (reached_next hfound (e := offering) hlist) trivial
  have hgranted : Lib.ReachedBy system Fair helloGranted :=
    reached_next hoffered ⟨hgrant, List.prefix_rfl⟩
  exact reached_next (reached_next hgranted (e := uploading) hfile) trivial

theorem hello_was_stored : ∃ p : Pair, ∃ s : Shipment, s.row = 0 ∧
    s.content.length = (5 : Int) ∧ s.sessionId = helloSession ∧
    p.receiver.Stored s.fileId s.content := by
  have hr : helloUploaded.Unrepeated := by
    unfold Unrepeated Crypto.Unrepeated
    decide +kernel
  have hstored : Message.response (response []) ∈ (helloUploaded.receiver.conns 1).sent := by
    decide +kernel
  have hended : (helloUploaded.next ending).sender.transfer.fileCount = 1 ∧
      ((helloUploaded.next ending).sender.transfer.entry 0).status = .done ∧
      ((helloUploaded.next ending).sender.transfer.entry 0).size = 5 := by decide +kernel
  have hsession : helloUploaded.sender.service.busy = true ∧
      helloUploaded.sender.service.sessionId = helloSession := by decide +kernel
  obtain ⟨hcount, hdone, hsize⟩ := hended
  obtain ⟨s, -, hrow, -, hs, hlength, hforce, hw⟩ := done_was_stored helloUploaded_reached hr
    helloQt_legible (e := ending) ⟨hstored, List.prefix_rfl⟩ (by rw [hcount]; decide) hdone
  exact ⟨helloUploaded, s, hrow, hlength.trans (hs.trans hsize),
    (hforce hsession.1).trans hsession.2, hw⟩
end

end Pair

end LocalSend
