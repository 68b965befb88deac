import LocalSend.Link.Proof.Done
import LocalSend.Receive.Proof.Brought
import LocalSend.Receive.Proof.Rows
import LocalSend.Send.Proof.Afresh

/-!
# What is stored here was sent there, and once

The other direction of `done_was_stored`: every file that the receiving side takes for complete is,
byte for byte, one that the sending side read and posted in that session, for the id of that row
(`received_was_sent`), whether or not the sending side ever learns of it. And no two connections
bring the same file in one session (`Tallied.apart`), so that the run of the receiving side is one in
which no upload arrives while another connection holds its row: no row takes a second file, and a row
that is done stays done (`received_once`).
-/

set_option autoImplicit false

namespace LocalSend

namespace Pair

section
variable [Qt] {p q : Pair} {i : ConnId} {x : Wire}

/-- The receiving side has seen nothing, or an event that brings what the wires carry. -/
structure Hears (p q : Pair) : Prop where
  body : ∀ i < p.receiver.nextConn, q.body i = p.body i
  event : q.receiver = p.receiver ∨ ∃ d, q.receiver = p.receiver.step d ∧
    ∀ i data, d = .readyRead i data → p.receiver.live i = true →
      ∃ x, p.wires[i]? = some x ∧ p.arrived i ++ data <+: x.stream

theorem Linked.hears (h : Linked p) {e : PairEvent} (he : p.Fair e) : Hears p (p.next e) := by
  cases e with
  | sender d => exact ⟨fun _ _ => rfl, .inl rfl⟩
  | receiver d => exact ⟨fun _ _ => rfl, .inr ⟨d, rfl, fun i data hd => absurd hd (he.2 i data)⟩⟩
  | connect id certificate reported address client stream =>
    simp only [Pair.next]
    split
    · split
      · refine ⟨fun i hi => ?_, .inr ⟨.connect address client, rfl, fun _ _ hd => by cases hd⟩⟩
        unfold body
        rw [List.getElem?_append_left (h.count ▸ hi)]
      · exact ⟨fun _ _ => rfl, .inl rfl⟩
    · exact ⟨fun _ _ => rfl, .inl rfl⟩
  | deliver i n =>
    simp only [Pair.next]
    split
    · rename_i x hx
      split
      · refine ⟨fun j _ => ?_, .inr ⟨.readyRead i ((x.stream.drop x.arrived).take n), rfl,
          fun j data hd _ => ?_⟩⟩
        · by_cases hj : i = j
          · subst hj
            rw [body_eq hx, body_eq (List.getElem?_set_self (List.getElem?_eq_some_iff.1 hx).1)]
          · unfold body
            rw [List.getElem?_set_ne hj]
        · injection hd with hij hdata
          subst hij hdata
          have htake : p.arrived i ++ (x.stream.drop x.arrived).take n =
              x.stream.take (x.arrived + n) := by
            rw [arrived_eq hx, List.take_add]
          have hfront : x.stream.take (x.arrived + n) <+: x.stream := List.take_prefix _ _
          exact ⟨x, hx, htake ▸ hfront⟩
      · exact ⟨fun _ _ => rfl, .inl rfl⟩
    · exact ⟨fun _ _ => rfl, .inl rfl⟩
  | answer i r error errorString body =>
    simp only [Pair.next]
    split <;> exact ⟨fun _ _ => rfl, .inl rfl⟩

theorem Linked.brought (h : Linked p) (hb : World.Brought p.body p.receiver) {e : PairEvent}
    (he : p.Fair e) : World.Brought (p.next e).body (p.next e).receiver := by
  obtain ⟨hbody, hsame | ⟨d, hstep, hstream⟩⟩ := h.hears he
  · rw [hsame]
    exact hb.congr hbody
  · rw [hstep]
    refine (hb.congr hbody).step h.hearing.inv h.hearing.explained fun i data hd hc u f hu hf => ?_
    obtain ⟨x, hx, hfront⟩ := hstream i data hd hc.1
    rw [hbody i (h.born hx), body_eq hx]
    exact (h.hearing.knows i).written h.hearing.inv hc hfront
      ((h.wired x (List.mem_of_getElem? hx)).carries.scan (h.length hx)) hu hf

/-- What was brought is a shipment of the sending side. -/
theorem Linked.sent (h : Linked p) {pre : List Effect} {row : Nat} {content : QByteArray}
    (hb : World.BroughtBy p.body p.receiver pre i row content) :
    ∃ s ∈ Sender.shipments p.sender.log, s.content = content ∧
      (∃ session, Log.session pre = some session ∧ session.id = s.sessionId) ∧
      ∃ a, Log.asked pre = some a ∧ row < a.files.length ∧
        (a.files.getD row default).id = s.fileId := by
  obtain ⟨x, hx⟩ : ∃ x, p.wires[i]? = some x := by
    have hlt : i < p.wires.length := h.count ▸ hb.born
    exact ⟨_, List.getElem?_eq_getElem hlt⟩
  have htitle := h.title hx fun hnone => by
    have hpath := hb.path
    rw [show (p.receiver.conns i).path = [] from congrArg (fun t => t.2.1) hnone] at hpath
    exact absurd hpath (by decide)
  obtain ⟨sessionId, fileId, token, length, bytes, hc⟩ := content_of_upload
    ((congrArg (fun t => t.2.1) htitle).symm.trans hb.path)
  obtain ⟨sent, hs⟩ := h.shipment hx hc
  rw [hc] at htitle
  obtain ⟨hsession, hfile⟩ := title_upload htitle
  obtain ⟨session, hopen, hid⟩ := hb.session
  obtain ⟨a, ha, hrow, haid⟩ := hb.asked
  refine ⟨_, hs, ?_, ⟨session, hopen, hid.symm.trans hsession⟩, a, ha, hrow, haid.trans hfile⟩
  have hcontent := hb.content
  rw [body_eq hx, hc] at hcontent
  exact hcontent.symm

/-- No file goes over two connections in a session, and none that is yet to be connected goes over
one that is. -/
structure Tallied (p : Pair) : Prop extends Linked p where
  brought : World.Brought p.body p.receiver
  distinct : p.sender.Distinct
  apart : ∀ (i j : ConnId) (x y : Wire) (s t : Shipment), p.wires[i]? = some x →
    p.wires[j]? = some y → x.request.shipment? = some s → y.request.shipment? = some t →
      s.Again t → i = j
  unsent : ∀ id r s, p.sender.replies id = some r → r.sent = false →
    r.request.shipment? = some s → ∀ x ∈ p.wires, ∀ t, x.request.shipment? = some t → ¬ t.Again s

/-! ## From step to step -/

omit [Qt] in
theorem isTransfer_of_shipment {r : QNetworkRequest} {s : Shipment} (h : r.shipment? = some s) :
    r.slot.isTransfer = true := by
  rw [(content_of_shipment h).1]
  rfl

theorem Linked.shipped (h : Linked p) (hx : x ∈ p.wires) {s : Shipment}
    (hs : x.request.shipment? = some s) : s ∈ Sender.shipments p.sender.log := by
  obtain ⟨e, he, hwhat⟩ := (h.wired x hx).posted (isTransfer_of_shipment hs)
  exact List.mem_filterMap.2 ⟨e, he, by rw [hwhat]; exact hs⟩

/-- An upload that is under way and not on a wire was so before, or is of no file that is on one. -/
theorem Tallied.fresh (h : Tallied p) (hr : p.Unrepeated) (hlegible : Legible) {e : PairEvent}
    (he : p.Fair e) {id : ReplyId} {r : QNetworkReply} {s : Shipment}
    (hreply : (p.next e).sender.replies id = some r) (hs : r.request.shipment? = some s) :
    (∃ q, p.sender.replies id = some q ∧ q.request = r.request ∧ (q.sent = true → r.sent = true)) ∨
      ∀ s' ∈ Sender.shipments p.sender.log, ¬ s'.Again s := by
  rcases h.plays hr hlegible he with heq | ⟨d, heq, -, -, hpromised⟩
  · rw [heq] at hreply
    exact .inl ⟨r, hreply, rfl, fun hsent => hsent⟩
  · rw [heq] at hreply
    have hadds : Sender.Adds p.sender (p.sender.step d) :=
      h.books.step_adds h.tidy h.posted h.offering
      (fun _ hg => h.given_later (h.later_next e) hg) hpromised
    exact (h.tidy.traced d).fresh hadds hreply hs

theorem Tallied.distinct_next (h : Tallied p) (hr : p.Unrepeated) (hlegible : Legible)
    {e : PairEvent} (he : p.Fair e) : (p.next e).sender.Distinct := by
  rcases h.plays hr hlegible he with heq | ⟨d, heq, -, -, hpromised⟩
  · rw [heq]
    exact h.distinct
  · rw [heq]
    exact h.distinct.adds (h.books.step_adds h.tidy h.posted h.offering
      (fun _ hg => h.given_later (h.later_next e) hg) hpromised)

/-- Where no wire is added, the wires stay apart from each other and from what is not sent yet. -/
theorem Tallied.still (h : Tallied p) (hr : p.Unrepeated) (hlegible : Legible) {e : PairEvent}
    (he : p.Fair e) (hwires : ∀ (i : ConnId) (y : Wire), (p.next e).wires[i]? = some y →
      ∃ x, p.wires[i]? = some x ∧ x.request = y.request) : Tallied (p.next e) where
  toLinked := h.toLinked.next hr hlegible he
  brought := h.toLinked.brought h.brought he
  distinct := h.distinct_next hr hlegible he
  apart i j x y s t hx hy hs ht hagain := by
    obtain ⟨x', hx', heq⟩ := hwires i x hx
    obtain ⟨y', hy', heq'⟩ := hwires j y hy
    rw [← heq] at hs
    rw [← heq'] at ht
    exact h.apart i j x' y' s t hx' hy' hs ht hagain
  unsent id r s hreply hsent hs x hx t ht hagain := by
    obtain ⟨i, hi⟩ := List.getElem?_of_mem hx
    obtain ⟨x', hx', heq⟩ := hwires i x hi
    have hmem := List.mem_of_getElem? hx'
    rw [← heq] at ht
    rcases h.fresh hr hlegible he hreply hs with ⟨q, hq, hsame, hkept⟩ | hnew
    · have hunsent : q.sent = false := by
        by_contra hne
        cases hsent.symm.trans (hkept (eq_true_of_ne_false hne))
      exact h.unsent id q s hq hunsent (hsame ▸ hs) x' hmem t ht hagain
    · exact hnew t (h.toLinked.shipped hmem ht) hagain

/-- A request that is connected is not sent again. -/
theorem Tallied.connected (h : Tallied p) (hr : p.Unrepeated) (hlegible : Legible) {id : ReplyId}
    {r : QNetworkReply} (hreply : p.sender.replies id = some r) (hunsent : ¬ r.sent)
    {certificate : QByteArray} {reported : Bool} (hconnects : r.request.connects certificate reported)
    {address : QString} {client : Option QByteArray} {stream : QByteArray}
    (he : p.Fair (.connect id certificate reported address client stream))
    (hq : p.next (.connect id certificate reported address client stream) =
      { sender := p.sender.step (.connects id certificate reported)
        receiver := p.receiver.step (.connect address client)
        wires := p.wires ++ [⟨id, r.request, stream, 0⟩] }) :
    Tallied (p.next (.connect id certificate reported address client stream)) := by
  have hwires : ∀ (i : ConnId) (y : Wire), (p.wires ++ [⟨id, r.request, stream, 0⟩])[i]? = some y →
      p.wires[i]? = some y ∨ i = p.wires.length ∧ y.request = r.request := by
    intro i y hy
    rcases Nat.lt_trichotomy i p.wires.length with hlt | rfl | hlt
    · rw [List.getElem?_append_left hlt] at hy
      exact .inl hy
    · rw [List.getElem?_concat_length] at hy
      exact .inr ⟨rfl, by cases hy; rfl⟩
    · rw [List.getElem?_eq_none (by simp; omega)] at hy
      cases hy
  have hunsent : r.sent = false := Bool.eq_false_iff.2 hunsent
  -- The new wire brings what was not sent yet, and so none of what is on a wire.
  have hnew : ∀ x ∈ p.wires, ∀ s t, x.request.shipment? = some s → r.request.shipment? = some t →
      ¬ s.Again t := fun x hx s t hs ht => h.unsent id r t hreply hunsent ht x hx s hs
  constructor
  case toLinked => exact h.toLinked.next hr hlegible he
  case brought => exact h.toLinked.brought h.brought he
  case distinct => exact h.distinct_next hr hlegible he
  case apart =>
    intro i j x y s t hx hy hs ht hagain
    rw [hq] at hx hy
    rcases hwires i x hx with hx | ⟨rfl, hreq⟩ <;> rcases hwires j y hy with hy | ⟨rfl, hreq'⟩
    · exact h.apart i j x y s t hx hy hs ht hagain
    · rw [hreq'] at ht
      exact absurd hagain (hnew x (List.mem_of_getElem? hx) s t hs ht)
    · rw [hreq] at hs
      exact absurd hagain.symm (hnew y (List.mem_of_getElem? hy) t s ht hs)
    · rfl
  case unsent =>
    intro id' r' s hreply' hsent hs x hx t ht hagain
    rcases h.fresh hr hlegible he hreply' hs with ⟨q, hq', hsame, hkept⟩ | hlate
    · have hqsent : q.sent = false := by
        by_contra hne
        cases hsent.symm.trans (hkept (eq_true_of_ne_false hne))
      -- Only one request of a transfer is under way, and that one has been sent.
      have hid : id' ≠ id := by
        rintro rfl
        rw [hq] at hreply'
        obtain ⟨c, hmarked⟩ : ∃ c, (p.sender.step (.connects id' certificate reported)).replies id' =
            some ⟨r.request, true, c⟩ := by
          simp only [Sender.step, hreply, Sender.connect, hunsent, Bool.false_eq_true, if_false,
            hconnects, if_true]
          exact ⟨_, Sender.setReply_self _ _ _⟩
        obtain rfl := Option.some.inj (hmarked.symm.trans hreply')
        cases hsent
      rw [← hsame] at hs
      rw [hq] at hx
      rcases List.mem_append.1 hx with hx | hx
      · exact h.unsent id' q s hq' hqsent hs x hx t ht hagain
      · rw [List.mem_singleton.1 hx] at ht
        have hwaits := (h.tidy.waited id' q hq' (isTransfer_of_shipment hs)).1
        have hwaits' := (h.tidy.waited id r hreply (isTransfer_of_shipment ht)).1
        exact hid (Option.some.inj (hwaits.symm.trans hwaits'))
    · rw [hq] at hx
      rcases List.mem_append.1 hx with hx | hx
      · exact hlate t (h.toLinked.shipped hx ht) hagain
      · rw [List.mem_singleton.1 hx] at ht
        obtain ⟨e, he, hwhat⟩ := h.posted id r hreply (isTransfer_of_shipment ht)
        exact hlate t (List.mem_filterMap.2 ⟨e, he, by rw [hwhat]; exact ht⟩) hagain

theorem Tallied.next (h : Tallied p) (hr : p.Unrepeated) (hlegible : Legible) {e : PairEvent}
    (he : p.Fair e) : Tallied (p.next e) := by
  have same : ∀ {e : PairEvent}, p.Fair e → (p.next e).wires = p.wires → Tallied (p.next e) :=
    fun he hw => h.still hr hlegible he fun i y hy => ⟨y, hw ▸ hy, rfl⟩
  cases e with
  | sender d => exact same he rfl
  | receiver d => exact same he rfl
  | connect id certificate reported address client stream =>
    cases hreply : p.sender.replies id with
    | none => exact same he (by simp only [Pair.next, hreply])
    | some r =>
      by_cases hup : ¬ r.sent ∧ r.request.connects certificate reported ∧
          p.receiver.server.isListening
      · refine h.connected hr hlegible hreply hup.1 hup.2.1 he ?_
        simp only [Pair.next, hreply]
        rw [if_pos hup]
      · refine same he ?_
        simp only [Pair.next, hreply]
        rw [if_neg hup]
  | deliver i n =>
    refine h.still hr hlegible he fun j y hy => ?_
    simp only [Pair.next] at hy
    split at hy
    · rename_i x hx
      split at hy
      · by_cases hj : i = j
        · subst hj
          rw [List.getElem?_set_self (List.getElem?_eq_some_iff.1 hx).1] at hy
          exact ⟨x, hx, by cases hy; rfl⟩
        · rw [List.getElem?_set_ne hj] at hy
          exact ⟨y, hy, rfl⟩
      · exact ⟨y, hy, rfl⟩
    · exact ⟨y, hy, rfl⟩
  | answer i r error errorString body =>
    refine same he ?_
    simp only [Pair.next]
    split <;> rfl

/-! ## What the receiving side makes of it -/

theorem Linked.shipment? (h : Linked p) (hx : p.wires[i]? = some x)
    {sessionId fileId token : QString} {length : Int} {bytes : QByteArray}
    (hc : x.request.content = .fileBytes sessionId fileId token length bytes) :
    ∃ s, x.request.shipment? = some s ∧ s.sessionId = sessionId ∧ s.fileId = fileId := by
  obtain ⟨row, hrow⟩ := (h.wired x (List.mem_of_getElem? hx)).matched.upload _ _ _ _ _ hc
  refine ⟨⟨sessionId, fileId, length, row, bytes⟩, ?_, rfl, rfl⟩
  unfold QNetworkRequest.shipment?
  rw [hc, hrow]

/-- An upload names the session and the file of the shipment on its wire. -/
theorem Linked.names (h : Linked p) {c : HttpConnection} (hx : p.wires[i]? = some x)
    (hc : c.Kept (p.receiver.conns i)) (hhead : c.state ≠ .readingHeaders)
    (hpath : c.path = endpoint Protocol.PathUpload) : ∃ s, x.request.shipment? = some s ∧
      c.queryValue (str "sessionId") = s.sessionId ∧ c.fileId = s.fileId := by
  have hpath' := (hc.request hhead).2.2.1.trans hpath
  have htitle := h.title hx fun hnone => by
    rw [show (p.receiver.conns i).path = [] from congrArg (fun t => t.2.1) hnone] at hpath'
    exact absurd hpath' (by decide)
  obtain ⟨sessionId, fileId, token, length, bytes, hcontent⟩ := content_of_upload
    ((congrArg (fun t => t.2.1) htitle).symm.trans hpath')
  obtain ⟨s, hs, hsession, hfile⟩ := h.shipment? hx hcontent
  rw [hcontent] at htitle
  obtain ⟨htsession, htfile⟩ := title_upload htitle
  rw [hc.queryValue hhead] at htsession
  rw [hc.fileId hhead] at htfile
  exact ⟨s, hs, htsession.trans hsession.symm, htfile.trans hfile.symm⟩

/-- What is on a wire stays on it. -/
theorem next_wires (e : PairEvent) (hx : p.wires[i]? = some x) :
    ∃ y, (p.next e).wires[i]? = some y ∧ y.request = x.request := by
  have hlt := (List.getElem?_eq_some_iff.1 hx).1
  cases e with
  | sender d => exact ⟨x, hx, rfl⟩
  | receiver d => exact ⟨x, hx, rfl⟩
  | connect id certificate reported address client stream =>
    simp only [Pair.next]
    split
    · split
      · refine ⟨x, ?_, rfl⟩
        rw [List.getElem?_append_left hlt]
        exact hx
      · exact ⟨x, hx, rfl⟩
    · exact ⟨x, hx, rfl⟩
  | deliver j n =>
    simp only [Pair.next]
    split
    · rename_i y hy
      split
      · by_cases hj : j = i
        · subst hj
          obtain rfl := Option.some.inj (hx.symm.trans hy)
          exact ⟨_, List.getElem?_set_self hlt, rfl⟩
        · exact ⟨x, (List.getElem?_set_ne hj).trans hx, rfl⟩
      · exact ⟨x, hx, rfl⟩
    · exact ⟨x, hx, rfl⟩
  | answer j r error errorString body =>
    simp only [Pair.next]
    split <;> exact ⟨x, hx, rfl⟩

/-- No upload arrives while another connection holds its row. -/
theorem Tallied.singly (h : Tallied p) (hr : p.Unrepeated) (hlegible : Legible) {e : PairEvent}
    (he : p.Fair e) {d : Event} (hstep : (p.next e).receiver = p.receiver.step d)
    (hwire : ∀ i data, d = .readyRead i data → p.receiver.live i = true →
      ∃ x, p.wires[i]? = some x ∧ p.arrived i ++ data <+: x.stream) : p.receiver.Singly d := by
  intro i data hd hc u hu harrived j hj u' hu' hrow
  subst hd
  obtain ⟨x, hx, -⟩ := hwire i data rfl hc.1
  have hnext := h.next hr hlegible he
  obtain ⟨hreads, hheard⟩ := hc.reads h.hearing.inv
  have hinv := hreads.acts.inv h.hearing.inv
  have hs := hinv.served i u hu
  have hs' := hinv.served j u' hu'
  -- What is on the wires is still on them after the step.
  obtain ⟨y, hy⟩ : ∃ y, p.wires[j]? = some y := by
    have hserved := h.hearing.inv.served j u' ((hreads.uploads j hj).symm.trans hu')
    have hlt : j < p.wires.length := h.count ▸ hserved.born
    exact ⟨_, List.getElem?_eq_getElem hlt⟩
  obtain ⟨s', hship', hsession', hfile'⟩ := h.toLinked.names hy (hreads.conns j hj ▸ .refl _)
    hs'.head hs'.path
  obtain ⟨s, hship, hsession, hfile⟩ : ∃ s, x.request.shipment? = some s ∧
      ((p.receiver.heard i data).conns i).queryValue (str "sessionId") = s.sessionId ∧
      ((p.receiver.heard i data).conns i).fileId = s.fileId := by
    have hborn := hreads.toNear.born h.hearing.inv (World.born_of_live hc.1)
    have hkept := ((World.onRequestReady_acts (g := .all) hinv hborn hreads.state hreads.complete
      ⟨fun _ => trivial, fun _ _ _ => trivial, fun _ _ _ => trivial⟩).kept hinv).2 i hborn
    rw [← hheard, ← hstep] at hkept
    obtain ⟨z, hz, hrequest⟩ := next_wires e hx
    rw [← hrequest]
    exact hnext.toLinked.names hz hkept hs.head hs.path
  refine hj (h.apart j i y x s' s hy hx hship' hship ⟨?_, ?_, ?_⟩)
  · rw [← hsession', hs'.session]
    exact hs'.open_
  · rw [← hsession', ← hsession, hs'.session, hs.session]
  · rw [← hfile', ← hfile]
    have hid := (TransferModel.entry_of_indexOfFile hs.found).2
    have hid' := (TransferModel.entry_of_indexOfFile hs'.found).2
    rw [hrow] at hid'
    exact hid'.symm.trans hid

/-! ## Every run -/

/-- The run of the receiving side is one in which every row takes one upload at a time. -/
theorem reached_tallied (h : Lib.ReachedBy system Fair p) (hr : p.Unrepeated)
    (hlegible : Legible) : Tallied p ∧ Lib.ReachedBy World.system World.Singly p.receiver := by
  have hboth : p.receiver.Inv ∧
      (p.Unrepeated → Tallied p ∧ Lib.ReachedBy World.system World.Singly p.receiver) := by
    refine Lib.ReachedBy.invariant (S := system) (I := fun p => p.receiver.Inv ∧
      (p.Unrepeated → Tallied p ∧ Lib.ReachedBy World.system World.Singly p.receiver))
      (fun p hp => ⟨hp.receiver.inv, fun _ => ⟨?_, .start hp.receiver⟩⟩) (fun p e hp he => ?_) h
    · exact {
        toLinked := hp.linked
        brought := hp.receiver.brought
        distinct := by
          unfold Sender.Distinct
          rw [hp.sender.log]
          exact .nil
        apart := fun i j x y s t hx => by
          rw [hp.wires] at hx
          cases hx
        unsent := fun id r s hreply => by
          rw [hp.sender.replies] at hreply
          cases hreply }
    · have hinv : (p.next e).receiver.Inv := by
        rcases next_receiver p e with heq | ⟨d, heq⟩
        · exact heq.symm ▸ hp.1
        · exact heq.symm ▸ (World.step_acts hp.1 d (World.permits_all p.receiver d)).inv hp.1
      refine ⟨hinv, fun hr => ?_⟩
      have hr := Unrepeated.back hr hp.1
      obtain ⟨htallied, hreached⟩ := hp.2 hr
      refine ⟨htallied.next hr hlegible he, ?_⟩
      change Lib.ReachedBy World.system World.Singly (p.next e).receiver
      rcases (htallied.toLinked.hears he).event with hsame | ⟨d, hstep, hstream⟩
      · rw [hsame]
        exact hreached
      · rw [hstep]
        exact .next d hreached (htallied.singly hr hlegible he hstep hstream)
  exact hboth.2 hr

/-- Every file that is complete on the receiving side is one that the sending side posted, of this
size and with these bytes, in the session that was open there, for the id of the row. -/
theorem received_was_sent (h : Lib.ReachedBy system Fair p) (hr : p.Unrepeated)
    (hlegible : Legible) {pre post : List Effect} {row : Nat} {path : QString} {content : QByteArray}
    (hlog : p.receiver.log = pre ++ Effect.stored i row path content :: post) :
    ∃ s ∈ Sender.shipments p.sender.log, s.content = content ∧ content.length = s.size ∧
      (∃ session, Log.session pre = some session ∧ session.id = s.sessionId) ∧
      ∃ a, Log.asked pre = some a ∧ row < a.files.length ∧
        (a.files.getD row default).id = s.fileId := by
  obtain ⟨htallied, -⟩ := reached_tallied h hr hlegible
  obtain ⟨s, hs, rfl, hsession, hasked⟩ :=
    htallied.toLinked.sent (htallied.brought pre i row path content post hlog)
  exact ⟨s, hs, rfl, htallied.books.whole s hs, hsession, hasked⟩

/-- In a transfer no row takes a second file, and a row that is done stays done; and the sending side
posts no file of a session twice. -/
theorem received_once (h : Lib.ReachedBy system Fair p) (hr : p.Unrepeated) (hlegible : Legible) :
    (∀ pre post, p.receiver.log = pre ++ post → ((Log.storedFiles pre).map Prod.fst).Nodup ∧
      ∀ row status post', post = Effect.fileStatus row status :: post' → row ∉ Log.doneRows pre) ∧
    (∀ row ∈ Log.doneRows p.receiver.log, (p.receiver.transfer.entry row).status = .done) ∧
    p.sender.Distinct := by
  obtain ⟨htallied, hreached⟩ := reached_tallied h hr hlegible
  obtain ⟨hrows, -⟩ := World.reached_rows hreached
  refine ⟨fun pre post hlog => ⟨?_, fun row status post' hpost => ?_⟩, fun row hrow => ?_,
    htallied.distinct⟩
  · exact Log.Once.nodup (hlog ▸ hrows.log).of_append
  · exact hrows.log pre _ post' (hpost ▸ hlog)
  · exact (hrows.done row).1 hrow

end

section

local instance onceQt : Qt := helloQt

theorem hello_unrepeated : helloUploaded.Unrepeated := by
  unfold Unrepeated Crypto.Unrepeated
  decide +kernel

theorem hello_was_sent : ∃ p : Pair, ∃ s ∈ Sender.shipments p.sender.log, ∃ i row path,
    Effect.stored i row path s.content ∈ p.receiver.log ∧ s.content.length = s.size := by
  have hstored : helloUploaded.receiver.log.any (World.isStored (str "/d/a.txt")) = true := by
    decide +kernel
  obtain ⟨e, hmem, he⟩ := List.any_eq_true.1 hstored
  obtain ⟨pre, post, hlog⟩ := List.append_of_mem hmem
  cases e with
  | stored i row path content =>
    obtain ⟨s, hs, rfl, hlength, -⟩ :=
      received_was_sent helloUploaded_reached hello_unrepeated helloQt_legible hlog
    exact ⟨helloUploaded, s, hs, i, row, path, hmem, hlength⟩
  | _ => cases he

theorem hello_received_once : ∃ p : Pair, Log.doneRows p.receiver.log = [0] ∧
    (p.receiver.transfer.entry 0).status = .done ∧ p.sender.Distinct := by
  have hdone : Log.doneRows helloUploaded.receiver.log = [0] := by decide +kernel
  obtain ⟨-, hrows, hdistinct⟩ :=
    received_once helloUploaded_reached hello_unrepeated helloQt_legible
  exact ⟨helloUploaded, hdone, hrows 0 (hdone ▸ List.mem_cons_self), hdistinct⟩

end

end Pair

end LocalSend
