import LocalSend.Link.Pair
import LocalSend.Link.Proof.Hearing
import LocalSend.Send.Proof.Books
import LocalSend.Send.Proof.InTurn

/-!
# What the sender takes for sent, the receiver has stored

`Linked` is what holds of a pair in every run: each side keeps its own invariants, and a wire
carries the request of its reply. An upload is answered with success only if its file was stored
(`Linked.stored`), and a session is granted to one prepare-upload only (`Linked.grants`); this is
what the sending side relies on (`Linked.plays`), and what keeps `Linked` (`Linked.next`).
-/

set_option autoImplicit false

namespace LocalSend

/-- A request says what its slot is about. -/
structure QNetworkRequest.Matched (r : QNetworkRequest) : Prop where
  prepared : r.slot = .prepared → ∃ pin body, r.content = .fileList pin body
  upload : ∀ sessionId fileId token length bytes,
    r.content = .fileBytes sessionId fileId token length bytes → ∃ row, r.slot = .uploaded row

namespace Sender

variable {w v : Sender}

section
variable [Qt]

theorem Sends.matched {e : SenderEvent} {q : QNetworkRequest} (h : w.Sends e (.posted q)) :
    q.Matched := by
  have lists : ∀ {peer : DeviceInfo}, Asking peer (.posted q) → q.Matched := by
    rintro peer ⟨pin, body, rfl⟩
    exact ⟨fun _ => ⟨pin, body, rfl⟩, fun _ _ _ _ _ hc => by cases hc⟩
  cases h with
  | probe ho =>
    obtain ⟨-, ⟨body, hbody⟩, hslot⟩ := ho
    refine ⟨fun hs => ?_, fun _ _ _ _ _ hc => ?_⟩
    · rw [hs] at hslot
      cases hslot
    · rw [hbody] at hc
      cases hc
  | answer _ ho =>
    obtain ⟨body, rfl⟩ := ho
    exact ⟨fun hs => (by cases hs), fun _ _ _ _ _ hc => by cases hc⟩
  | ask _ ho => exact lists ho
  | askAgain _ _ ho => exact lists ho
  | upload _ ho =>
    obtain ⟨sessionId, fileId, token, length, bytes, row, rfl⟩ := ho
    exact ⟨fun hs => (by cases hs), fun _ _ _ _ _ _ => ⟨row, rfl⟩⟩
  | cancel ho =>
    obtain ⟨sessionId, rfl⟩ := ho
    exact ⟨fun hs => (by cases hs), fun _ _ _ _ _ hc => by cases hc⟩

/-- What is under way is what was, or was posted. -/
theorem matched_step (h : ∀ id r, w.replies id = some r → r.request.Matched) (e : SenderEvent) :
    ∀ id r, (w.step e).replies id = some r → r.request.Matched := by
  intro id r hr
  rcases (step_emits w e).1.replies id r hr with ⟨q, hq, heq⟩ | hsends
  · rw [← heq]
    exact h id q hq
  · exact hsends.matched

end

end Sender

/-- The answer to a prepare-upload reads back with the session it names, and so does the beginning
of it, if it is JSON at all. -/
def Legible [Qt] : Prop := ∀ sessionId tokens text response,
  (∀ c ∈ sessionId, Crypto.isHexChar c = true) →
    text <+: Qt.toJson (acceptance sessionId tokens) → Qt.fromJson text = some response →
      (response.value (str "sessionId")).toString [] = sessionId

/-- These bytes are stored as the file of a row with this id, and the row became done. -/
def World.Stored (w : World) (fileId : QString) (bytes : QByteArray) : Prop :=
  ∃ pre i row path post a,
    w.log = pre ++ Effect.stored i row path bytes :: Effect.fileStatus row .done :: post ∧
      Log.asked pre = some a ∧ row < a.files.length ∧ (a.files.getD row default).id = fileId

namespace Pair

/-- A session that was granted to a request which is not under way any more. -/
def Given (p : Pair) (sessionId : QString) : Prop := ∃ i x tokens, p.wires[i]? = some x ∧
  p.sender.replies x.reply = none ∧ Log.Issued p.receiver.log sessionId tokens i

variable [Qt]

/-- What is assumed of the user, of the files and of the network: the PIN is entered when it is
asked for, the files of a transfer stay as they are, the requests of a transfer are answered by the
receiving side, which nobody else connects to, and the network manager sends what it was given. -/
def Fair (p : Pair) : PairEvent → Prop
  | .sender e => p.sender.Patient e ∧ p.sender.Intact e ∧
    ∀ id error status errorString body, e = .answered id error status errorString body →
      ∀ r, p.sender.replies id = some r → r.request.slot.isTransfer = false
  | .receiver e => (∀ address client, e ≠ .connect address client) ∧ ∀ i data, e ≠ .readyRead i data
  | .connect id _ _ _ _ stream =>
    ∀ r, p.sender.replies id = some r → r.request.content.Carries stream
  | .deliver .. => True
  | .answer i r _ _ body => Message.response r ∈ (p.receiver.conns i).sent ∧ body <+: r.payload

/-- The random source of the receiving side has not repeated itself so far. -/
def Unrepeated (p : Pair) : Prop := Crypto.Unrepeated p.receiver.random p.receiver.drawn

/-- The wire carries the request of its reply. -/
structure Wired (p : Pair) (x : Wire) : Prop where
  carries : x.request.content.Carries x.stream
  matched : x.request.Matched
  posted : x.request.slot.isTransfer = true → ∃ e ∈ p.sender.log, e.what = .posted x.request
  old : x.reply < p.sender.nextReply
  same : ∀ r, p.sender.replies x.reply = some r → r.request = x.request

/-- The receiving side reads what its wires carry. -/
structure Serves (p : Pair) : Prop where
  hearing : World.Hearing p.body p.arrived p.receiver
  count : p.receiver.nextConn = p.wires.length
  wired : ∀ x ∈ p.wires, p.Wired x

structure Linked (p : Pair) : Prop extends Serves p where
  tidy : p.sender.Tidy
  posted : Sender.Posted p.sender
  matched : ∀ id r, p.sender.replies id = some r → r.request.Matched
  phased : ∃ granted, Sender.Phased granted p.sender
  books : Sender.Books p.Given (fun s => p.receiver.Stored s.fileId s.content) p.sender

variable {p q : Pair} {i : ConnId} {x : Wire}

theorem Linked.offering (h : Linked p) : p.sender.Offering := by
  obtain ⟨granted, hphased⟩ := h.phased
  exact hphased.offering h.tidy

/-! ## What a connection brings -/

omit [Qt] in
theorem arrived_eq (hx : p.wires[i]? = some x) : p.arrived i = x.stream.take x.arrived := by
  unfold arrived
  rw [hx]

omit [Qt] in
theorem body_eq (hx : p.wires[i]? = some x) : p.body i = x.request.content.body := by
  unfold body
  rw [hx]

theorem Linked.born (h : Linked p) (hx : p.wires[i]? = some x) : i < p.receiver.nextConn := by
  rw [h.count]
  exact (List.getElem?_eq_some_iff.1 hx).1

/-- What the connection was asked for is what the request on its wire asks for. -/
theorem Linked.title (h : Linked p) (hx : p.wires[i]? = some x)
    (hne : (p.receiver.conns i).title ≠ World.noTitle) :
    (p.receiver.conns i).title = x.request.content.title := by
  rcases h.hearing.titled i (h.born hx) with ⟨hnone, -⟩ | ⟨-, htitle⟩
  · exact absurd hnone hne
  · rw [arrived_eq hx] at htitle
    have hfront : x.stream.take x.arrived <+: x.stream := List.take_prefix _ _
    exact titleOf_prefix htitle (h.wired x (List.mem_of_getElem? hx)).carries.titleOf hfront

/-- An upload on a wire is a shipment of the sending side. -/
theorem Linked.shipment (h : Linked p) (hx : p.wires[i]? = some x) {sessionId fileId token : QString}
    {length : Int} {bytes : QByteArray}
    (hc : x.request.content = .fileBytes sessionId fileId token length bytes) :
    ∃ row, (⟨sessionId, fileId, length, row, bytes⟩ : Shipment) ∈ Sender.shipments p.sender.log := by
  have hwired := h.wired x (List.mem_of_getElem? hx)
  obtain ⟨row, hrow⟩ := hwired.matched.upload _ _ _ _ _ hc
  obtain ⟨e, he, hwhat⟩ := hwired.posted (by rw [hrow]; rfl)
  refine ⟨row, List.mem_filterMap.2 ⟨e, he, ?_⟩⟩
  rw [hwhat]
  change x.request.shipment? = _
  unfold QNetworkRequest.shipment?
  rw [hc, hrow]

/-- The stated length is that of the body. -/
theorem Linked.length (h : Linked p) (hx : p.wires[i]? = some x) :
    x.request.content.length = x.request.content.body.length := by
  cases hc : x.request.content with
  | fileBytes sessionId fileId token length bytes =>
    obtain ⟨row, hs⟩ := h.shipment hx hc
    exact (h.books.whole _ hs).symm
  | _ => rfl

omit [Qt] in
/-- Only an upload is sent to the path of uploads. -/
theorem content_of_upload {content : Content}
    (h : endpoint content.path = endpoint Protocol.PathUpload) :
    ∃ sessionId fileId token length bytes,
      content = .fileBytes sessionId fileId token length bytes := by
  cases content with
  | fileBytes sessionId fileId token length bytes => exact ⟨_, _, _, _, _, rfl⟩
  | introduction =>
    have hpath : endpoint Protocol.PathRegister = endpoint Protocol.PathUpload := h
    exact absurd hpath (by decide)
  | fileList =>
    have hpath : endpoint Protocol.PathPrepareUpload = endpoint Protocol.PathUpload := h
    exact absurd hpath (by decide)
  | cancellation =>
    have hpath : endpoint Protocol.PathCancel = endpoint Protocol.PathUpload := h
    exact absurd hpath (by decide)

omit [Qt] in
/-- The session and the file that an upload names. -/
theorem title_upload {c : HttpConnection} {sessionId fileId token : QString} {length : Int}
    {bytes : QByteArray}
    (h : c.title = (Content.fileBytes sessionId fileId token length bytes).title) :
    c.queryValue (str "sessionId") = sessionId ∧ c.fileId = fileId := by
  have hquery : c.query = ((∅ : AList fun _ : QString => QString).insert (str "sessionId")
      sessionId |>.insert (str "fileId") fileId |>.insert (str "token") token) :=
    congrArg (fun t => t.2.2) h
  unfold HttpConnection.fileId HttpConnection.queryValue
  rw [hquery]
  constructor
  · rw [AList.lookup_insert_ne (by decide), AList.lookup_insert_ne (by decide), AList.lookup_insert]
    rfl
  · rw [AList.lookup_insert_ne (by decide), AList.lookup_insert]
    rfl

omit [Qt] in
theorem title_ne {c : HttpConnection} (h : c.method = str "OPTIONS" ∨ c.path ≠ []) :
    c.title ≠ World.noTitle := by
  intro hnone
  rcases h with hm | hp
  · rw [show c.method = [] from congrArg Prod.fst hnone] at hm
    exact absurd hm (by decide)
  · exact hp (congrArg (fun t => t.2.1) hnone)

/-- An upload that is answered with success was stored. -/
theorem Linked.stored (h : Linked p) (hx : p.wires[i]? = some x) {sessionId fileId token : QString}
    {length : Int} {bytes : QByteArray}
    (hc : x.request.content = .fileBytes sessionId fileId token length bytes) {r : Response}
    (hr : r.Success) (hsent : Message.response r ∈ (p.receiver.conns i).sent) :
    p.receiver.Stored fileId bytes := by
  have hbacked := h.hearing.filing.told i (h.born hx) r hr hsent
  have htitle := h.title hx (title_ne hbacked.asked)
  rw [hc] at htitle
  obtain ⟨hsession, hfile⟩ := title_upload htitle
  have hfiled := hbacked.upload (congrArg (fun t => t.2.1) htitle) fun hm => by
    rw [show (p.receiver.conns i).method = str "POST" from congrArg Prod.fst htitle] at hm
    exact absurd hm (by decide)
  rw [hsession, hfile] at hfiled
  obtain ⟨j, hj⟩ := hfiled
  -- Whoever stored it brought the same session and the same file, and so the same bytes.
  have hlt : j < p.wires.length := h.count ▸ hj.born
  obtain ⟨y, hy⟩ : ∃ y, p.wires[j]? = some y := ⟨_, List.getElem?_eq_getElem hlt⟩
  have hytitle := h.title hy fun hnone => by
    have hpath := hj.path
    rw [show (p.receiver.conns j).path = [] from congrArg (fun t => t.2.1) hnone] at hpath
    exact absurd hpath (by decide)
  obtain ⟨_, _, _, _, bytes', hyc⟩ := content_of_upload
    ((congrArg (fun t => t.2.1) hytitle).symm.trans hj.path)
  rw [hyc] at hytitle
  obtain ⟨hysession, hyfile⟩ := title_upload hytitle
  obtain ⟨row, hs⟩ := h.shipment hx hc
  obtain ⟨row', hs'⟩ := h.shipment hy hyc
  have hsame : bytes = bytes' := h.books.once _ hs _ hs' hj.nonempty
    (hj.session.symm.trans hysession) (hj.file.symm.trans hyfile)
  obtain ⟨pre, row, path, post, a, hlog, ha⟩ := hj.stored
  rw [body_eq hy, hyc] at hlog
  exact ⟨pre, j, row, path, post, a, hsame ▸ hlog, ha⟩

/-- A session that was issued was drawn, and so is hex digits. -/
theorem Linked.hex (h : Linked p) {sessionId : QString} {tokens : AList fun _ : QString => QString}
    (hi : Log.Issued p.receiver.log sessionId tokens i) :
    ∀ c ∈ sessionId, Crypto.isHexChar c = true := by
  obtain ⟨pre, address, post, a, hlog, -⟩ := hi
  obtain ⟨k, -, rfl⟩ := h.hearing.dealt.drawn (List.mem_filterMap.2
    ⟨.issued sessionId address tokens,
      by rw [hlog]; exact List.mem_append_right _ List.mem_cons_self, rfl⟩)
  exact Crypto.generateToken_isHexChar _ _

/-- A prepare-upload that is answered with a session is the only one that is. -/
theorem Linked.grants (h : Linked p) (hr : p.Unrepeated) (hlegible : Legible)
    (hx : p.wires[i]? = some x) {q : QNetworkReply} (hq : p.sender.replies x.reply = some q)
    (hslot : q.request.slot = .prepared) {r : Response} (h200 : r.status = 200)
    (hsent : Message.response r ∈ (p.receiver.conns i).sent) {text : QByteArray}
    (htext : text <+: r.payload) {response : QJsonObject}
    (hresponse : Qt.fromJson text = some response)
    (hne : (response.value (str "sessionId")).toString [] ≠ []) :
    ¬ p.Given ((response.value (str "sessionId")).toString []) ∧ ∃ tokens,
      Log.Issued p.receiver.log ((response.value (str "sessionId")).toString []) tokens i := by
  have hwired := h.wired x (List.mem_of_getElem? hx)
  rw [hwired.same q hq] at hslot
  obtain ⟨pin, list, hc⟩ := hwired.matched.prepared hslot
  have hsuccess : r.Success := by
    unfold Response.Success
    rw [h200]
  have hbacked := h.hearing.filing.told i (h.born hx) r hsuccess hsent
  have htitle := h.title hx (title_ne hbacked.asked)
  have hpath : (p.receiver.conns i).path = endpoint Protocol.PathPrepareUpload := by
    rw [hc] at htitle
    exact congrArg (fun t => t.2.1) htitle
  obtain ⟨sessionId, tokens, hpayload, hissued⟩ := hbacked.prepare hpath h200
  rw [hpayload] at htext
  have hread := hlegible sessionId tokens text response (h.hex hissued) htext hresponse
  rw [hread] at hne ⊢
  refine ⟨?_, tokens, hissued⟩
  rintro ⟨j, y, tokens', hy, hnone, hissued'⟩
  obtain rfl := h.hearing.dealt.unique hr hne hissued hissued'
  obtain rfl := Option.some.inj (hx.symm.trans hy)
  cases hq.symm.trans hnone

/-! ## From step to step -/

/-- What is on record in `p` is on record in `q`. -/
structure Later (p q : Pair) : Prop where
  wires : ∀ (i : ConnId) (x : Wire), p.wires[i]? = some x →
    ∃ y : Wire, q.wires[i]? = some y ∧ y.reply = x.reply
  forward : Sender.Forward p.sender q.sender
  posted : ∀ e ∈ p.sender.log, e ∈ q.sender.log
  log : p.receiver.log <+: q.receiver.log

omit [Qt] in
theorem stored_later {w v : World} (h : w.log <+: v.log) {fileId : QString} {bytes : QByteArray}
    (hs : w.Stored fileId bytes) : v.Stored fileId bytes := by
  obtain ⟨pre, i, row, path, post, a, hlog, ha⟩ := hs
  obtain ⟨l, hl⟩ := h
  exact ⟨pre, i, row, path, post ++ l, a, by rw [← hl, hlog]; simp, ha⟩

omit [Qt] in
/-- A reply that is gone does not come back. -/
theorem Later.gone (hl : Later p q) {id : ReplyId} (hid : id < p.sender.nextReply)
    (hnone : p.sender.replies id = none) : q.sender.replies id = none := by
  rcases hr : q.sender.replies id with - | r
  · rfl
  · rcases hl.forward.back id r hr with ⟨r', hr', -⟩ | hle
    · cases hnone.symm.trans hr'
    · exact absurd hid (Nat.not_lt.2 hle)

theorem Linked.given_later (h : Linked p) (hl : Later p q) {sessionId : QString}
    (hg : p.Given sessionId) : q.Given sessionId := by
  obtain ⟨i, x, tokens, hx, hnone, hissued⟩ := hg
  obtain ⟨y, hy, hreply⟩ := hl.wires i x hx
  refine ⟨i, y, tokens, hy, ?_, hissued.mono hl.log⟩
  rw [hreply]
  exact hl.gone (h.wired x (List.mem_of_getElem? hx)).old hnone

theorem Wired.later (h : p.Wired x) (hl : Later p q) {y : Wire} (hreply : y.reply = x.reply)
    (hrequest : y.request = x.request) (hstream : y.stream = x.stream) : q.Wired y where
  carries := by
    rw [hrequest, hstream]
    exact h.carries
  matched := hrequest ▸ h.matched
  posted ht := by
    rw [hrequest] at ht ⊢
    obtain ⟨e, he, hwhat⟩ := h.posted ht
    exact ⟨e, hl.posted e he, hwhat⟩
  old := hreply ▸ Nat.lt_of_lt_of_le h.old hl.forward.next
  same r hr := by
    rw [hreply] at hr
    rw [hrequest]
    rcases hl.forward.back _ r hr with ⟨r', hr', heq⟩ | hle
    · exact heq.symm.trans (h.same r' hr')
    · exact absurd h.old (Nat.not_lt.2 hle)

theorem Linked.later_next (h : Linked p) (e : PairEvent) : Later p (p.next e) := by
  have forward : ∀ d, Sender.Forward p.sender (p.sender.step d) ∧
      ∀ e ∈ p.sender.log, e ∈ (p.sender.step d).log := by
    intro d
    obtain ⟨l, hl, -⟩ := (Sender.step_emits p.sender d).1.log
    exact ⟨Sender.step_forward d p.sender, fun e he => hl ▸ List.mem_append_left l he⟩
  have log : ∀ d, p.receiver.log <+: (p.receiver.step d).log := fun d =>
    (World.step_later h.hearing.inv d).log
  have still : Later p p := ⟨fun _ x hx => ⟨x, hx, rfl⟩, .same rfl rfl, fun _ he => he, List.prefix_rfl⟩
  cases e with
  | sender d => exact { still with
      forward := (forward d).1
      posted := (forward d).2 }
  | receiver d => exact { still with log := log d }
  | connect id certificate reported address client stream =>
    simp only [next]
    split
    · split
      · obtain ⟨hforward, hposted⟩ := forward (.connects id certificate reported)
        refine ⟨fun i x hx => ⟨x, ?_, rfl⟩, hforward, hposted, log _⟩
        rw [List.getElem?_append_left (List.getElem?_eq_some_iff.1 hx).1]
        exact hx
      · exact still
    · exact still
  | deliver i n =>
    simp only [next]
    split
    · rename_i x hx
      split
      · refine { still with
          log := log _
          wires := fun j y hy => ?_ }
        by_cases hj : i = j
        · subst hj
          obtain rfl := Option.some.inj (hx.symm.trans hy)
          exact ⟨_, List.getElem?_set_self (List.getElem?_eq_some_iff.1 hx).1, rfl⟩
        · exact ⟨y, (List.getElem?_set_ne hj).trans hy, rfl⟩
      · exact still
    · exact still
  | answer i r error errorString body =>
    simp only [next]
    split
    · rename_i x _
      obtain ⟨hforward, hposted⟩ := forward (.answered x.reply error r.status errorString body)
      exact { still with
        forward := hforward
        posted := hposted }
    · exact still

/-- An upload of a wire that was stored. -/
def Vouched (p : Pair) (s : Shipment) : Prop := ∃ (i : ConnId) (x : Wire),
  p.wires[i]? = some x ∧ x.request.shipment? = some s ∧ p.receiver.Stored s.fileId s.content

omit [Qt] in
theorem content_of_shipment {r : QNetworkRequest} {s : Shipment} (h : r.shipment? = some s) :
    r.slot = .uploaded s.row ∧
      ∃ token, r.content = .fileBytes s.sessionId s.fileId token s.size s.content := by
  unfold QNetworkRequest.shipment? at h
  split at h
  · rename_i hc hs
    obtain rfl := Option.some.inj h
    exact ⟨hs, _, hc⟩
  · cases h

/-- A request that is answered is not under way any more. -/
theorem answered_gone {w : Sender} {id : ReplyId} {r : QNetworkReply} (hr : w.replies id = some r)
    (hsent : r.sent = true) (hid : id < w.nextReply) (error : Bool) (status : Nat)
    (errorString : QString) (body : QByteArray) :
    (w.step (.answered id error status errorString body)).replies id = none := by
  simp only [Sender.step, hr, hsent, if_true]
  have hforward := Sender.finish_forward id r error status errorString body w
  rcases hv : (w.finish id r error status errorString body).replies id with - | r'
  · rfl
  · rcases hforward.back id r' hv with ⟨q, hq, -⟩ | hle
    · rw [Sender.setReply_self] at hq
      cases hq
    · exact absurd hid (Nat.not_lt.2 hle)

/-- Whatever the sending side sees, it can rely on it. -/
theorem Linked.plays (h : Linked p) (hr : p.Unrepeated) (hlegible : Legible) {e : PairEvent}
    (he : p.Fair e) :
    (p.next e).sender = p.sender ∨ ∃ d, (p.next e).sender = p.sender.step d ∧
      p.sender.Patient d ∧ p.sender.Intact d ∧
        p.sender.Promised p.Given (p.next e).Given p.Vouched d := by
  cases e with
  | sender d =>
    obtain ⟨hpatient, hintact, hothers⟩ := he
    refine .inr ⟨d, rfl, hpatient, hintact, ?_, ?_⟩
    · intro id r error errorString body hd hr _ hslot
      have hother := hothers id error 200 errorString body hd r hr
      rw [hslot] at hother
      cases hother
    · intro id r status errorString body hd hr _ _ _ s hs
      have hother := hothers id false status errorString body hd r hr
      rw [(content_of_shipment hs).1] at hother
      cases hother
  | receiver d => exact .inl rfl
  | connect id certificate reported address client stream =>
    simp only [next]
    split
    · split
      · refine .inr ⟨.connects id certificate reported, rfl, trivial, trivial, ?_, ?_⟩
        · intro _ _ _ _ _ hd
          cases hd
        · intro _ _ _ _ _ hd
          cases hd
      · exact .inl rfl
    · exact .inl rfl
  | deliver i n =>
    simp only [next]
    split
    · split <;> exact .inl rfl
    · exact .inl rfl
  | answer i r error errorString body =>
    obtain ⟨hsent, hbody⟩ := he
    rcases hx : p.wires[i]? with - | x
    · refine .inl ?_
      simp only [next, hx]
    have hnext : p.next (.answer i r error errorString body) = { p with
        sender := p.sender.step (.answered x.reply error r.status errorString body) } := by
      simp only [next, hx]
    rw [hnext]
    have hwired := h.wired x (List.mem_of_getElem? hx)
    refine .inr ⟨.answered x.reply error r.status errorString body, rfl, trivial, trivial, ?_, ?_⟩
    · intro id q error' errorString' body' hd hq hqsent hslot response hresponse hne
      injection hd with hid _ h200 _ hbody'
      subst hid hbody'
      obtain ⟨hnew, tokens, hissued⟩ :=
        h.grants hr hlegible hx hq hslot h200 hsent hbody hresponse hne
      refine ⟨hnew, i, x, tokens, hx, ?_, hissued⟩
      exact answered_gone hq hqsent hwired.old error r.status errorString body
    · intro id q status errorString' body' hd hq _ hle hlt s hs
      injection hd with hid _ hstatus _ _
      subst hid hstatus
      have hsame := hwired.same q hq
      obtain ⟨-, token, hc⟩ := content_of_shipment hs
      rw [hsame] at hs hc
      refine ⟨i, x, hx, hs, h.stored hx hc ?_ hsent⟩
      unfold Response.Success
      omega

omit [Qt] in
theorem brings_nothing {w : World} {e : Event} (he : ∀ i data, e ≠ .readyRead i data) (i : ConnId) :
    w.brings i e = [] := by
  cases e with
  | readyRead j data => exact absurd rfl (he j data)
  | _ => rfl

theorem Linked.connected (h : Linked p) {id : ReplyId} {r : QNetworkReply}
    (hr : p.sender.replies id = some r) {certificate : QByteArray} {reported : Bool}
    (hlistens : p.receiver.server.isListening = true) (address : QString)
    (client : Option QByteArray) {stream : QByteArray} (hstream : r.request.content.Carries stream)
    (hq : q = { sender := p.sender.step (.connects id certificate reported)
                receiver := p.receiver.step (.connect address client)
                wires := p.wires ++ [⟨id, r.request, stream, 0⟩] })
    (hl : Later p q) : Serves q := by
  have hid : id < p.sender.nextReply := by
    by_contra hge
    cases hr.symm.trans (h.tidy.fresh id (Nat.le_of_not_lt hge))
  have harrived : q.arrived = fun i => p.arrived i ++ p.receiver.brings i (.connect address client) := by
    funext i
    rw [brings_nothing (fun _ _ hx => by cases hx), List.append_nil]
    unfold arrived
    rw [hq]
    by_cases hlt : i < p.wires.length
    · rw [List.getElem?_append_left hlt]
    · rw [List.getElem?_eq_none (Nat.le_of_not_lt hlt),
        List.getElem?_append_right (Nat.le_of_not_lt hlt)]
      cases i - p.wires.length <;> rfl
  have hbody : ∀ i < p.receiver.nextConn, q.body i = p.body i := by
    intro i hi
    rw [h.count] at hi
    unfold body
    rw [hq, List.getElem?_append_left hi]
  constructor
  case hearing =>
    rw [harrived]
    have hstep := (h.hearing.congr hbody).step (e := .connect address client) fun _ _ hx => by cases hx
    rw [hq] at hstep ⊢
    exact hstep
  case count =>
    rw [hq]
    simp only [World.step, hlistens, if_true, World.connect, List.length_append, h.count]
    rfl
  case wired =>
    intro x hx
    rw [hq] at hx
    rcases List.mem_append.1 hx with hx | hx
    · exact (h.wired x hx).later hl rfl rfl rfl
    · rw [List.mem_singleton.1 hx]
      refine ⟨hstream, h.matched id r hr, fun ht => ?_, ?_, fun r' hr' => ?_⟩
      · obtain ⟨e, he, hwhat⟩ := h.posted id r hr ht
        exact ⟨e, hl.posted e he, hwhat⟩
      · exact Nat.lt_of_lt_of_le hid hl.forward.next
      · rcases hl.forward.back id r' hr' with ⟨r'', hr'', heq⟩ | hle
        · obtain rfl := Option.some.inj (hr.symm.trans hr'')
          exact heq.symm
        · exact absurd hid (Nat.not_lt.2 hle)

theorem Linked.delivered (h : Linked p) (hx : p.wires[i]? = some x)
    (hlive : p.receiver.live i = true) {data : QByteArray} {n : Nat}
    (hdata : data = (x.stream.drop x.arrived).take n)
    (hq : q = { p with
      receiver := p.receiver.step (.readyRead i data)
      wires := p.wires.set i { x with arrived := x.arrived + data.length } })
    (hl : Later p q) : Serves q := by
  have hlt := (List.getElem?_eq_some_iff.1 hx).1
  have hself : q.wires[i]? = some { x with arrived := x.arrived + data.length } := by
    rw [hq]
    exact List.getElem?_set_self hlt
  have hother : ∀ j, i ≠ j → q.wires[j]? = p.wires[j]? := by
    intro j hj
    rw [hq]
    exact List.getElem?_set_ne hj
  have htake : x.stream.take (x.arrived + data.length) = x.stream.take x.arrived ++ data := by
    rw [List.take_add, ← List.prefix_iff_eq_take.1 (hdata ▸ List.take_prefix n _)]
  have harrived : q.arrived = fun j => p.arrived j ++ p.receiver.brings j (.readyRead i data) := by
    funext j
    by_cases hj : i = j
    · subst hj
      rw [arrived_eq hself, arrived_eq hx]
      change _ = _ ++ if i = i ∧ _ then data else []
      rw [if_pos ⟨rfl, hlive⟩]
      exact htake
    · change _ = _ ++ if i = j ∧ _ then data else []
      rw [if_neg (fun hand => hj hand.1), List.append_nil]
      unfold arrived
      rw [hother j hj]
  have hbody : q.body = p.body := by
    funext j
    by_cases hj : i = j
    · subst hj
      rw [body_eq hself, body_eq hx]
    · unfold body
      rw [hother j hj]
  constructor
  case hearing =>
    rw [harrived, hbody]
    rw [show q.receiver = _ from congrArg Pair.receiver hq]
    refine h.hearing.step fun j data' he _ => ?_
    injection he with hij hdata'
    subst hij hdata'
    refine ⟨x.stream, ?_, ?_⟩
    · rw [arrived_eq hx, ← htake]
      exact List.take_prefix _ _
    · rw [body_eq hx]
      exact (h.wired x (List.mem_of_getElem? hx)).carries.scan (h.length hx)
  case count =>
    rw [hq]
    refine (World.step_nextConn h.hearing.inv fun _ _ he => by cases he).trans ?_
    rw [h.count]
    exact List.length_set.symm
  case wired =>
    intro y hy
    rw [hq] at hy
    rcases List.mem_or_eq_of_mem_set hy with hy | rfl
    · exact (h.wired y hy).later hl rfl rfl rfl
    · exact (h.wired x (List.mem_of_getElem? hx)).later hl rfl rfl rfl

/-- Where only the sending side has moved, nothing has changed for the receiving side. -/
theorem Linked.unheard (h : Linked p) (hreceiver : q.receiver = p.receiver) (hwires : q.wires = p.wires)
    (hl : Later p q) : Serves q where
  hearing := by
    have harrived : q.arrived = p.arrived := by
      unfold arrived
      rw [hwires]
    have hbody : q.body = p.body := by
      unfold body
      rw [hwires]
    rw [harrived, hbody, hreceiver]
    exact h.hearing
  count := by rw [hreceiver, hwires, h.count]
  wired y hy := (h.wired y (hwires ▸ hy)).later hl rfl rfl rfl

theorem Linked.serves (h : Linked p) {e : PairEvent} (he : p.Fair e) : Serves (p.next e) := by
  have hl := h.later_next e
  cases e with
  | sender d => exact h.unheard rfl rfl hl
  | receiver d =>
    obtain ⟨hconnects, hreads⟩ := he
    have hstep := h.hearing.step fun j data hd _ => absurd hd (hreads j data)
    simp only [brings_nothing hreads, List.append_nil] at hstep
    exact ⟨hstep, (World.step_nextConn h.hearing.inv hconnects).trans h.count,
      fun y hy => (h.wired y hy).later hl rfl rfl rfl⟩
  | connect id certificate reported address client stream =>
    simp only [next] at hl ⊢
    split at hl
    · rename_i r hr
      split at hl
      · rename_i hup
        rw [if_pos hup]
        exact h.connected hr hup.2.2 address client (he r hr) rfl hl
      · rename_i hup
        rw [if_neg hup]
        exact h.toServes
    · exact h.toServes
  | deliver i n =>
    simp only [next] at hl ⊢
    split at hl
    · rename_i x hx
      split at hl
      · rename_i hlive
        rw [if_pos hlive]
        exact h.delivered hx hlive rfl rfl hl
      · rename_i hlive
        rw [if_neg hlive]
        exact h.toServes
    · exact h.toServes
  | answer i r error errorString body =>
    simp only [next] at hl ⊢
    split at hl
    · exact h.unheard rfl rfl hl
    · exact h.toServes

/-- Each side relies on the other. -/
theorem Linked.next (h : Linked p) (hr : p.Unrepeated) (hlegible : Legible) {e : PairEvent}
    (he : p.Fair e) : Linked (p.next e) := by
  have hl := h.later_next e
  have hstored : ∀ {s : Shipment}, p.receiver.Stored s.fileId s.content →
      (p.next e).receiver.Stored s.fileId s.content := fun hs => stored_later hl.log hs
  have hserves := h.serves he
  rcases h.plays hr hlegible he with heq | ⟨d, heq, hpatient, hintact, hpromised⟩
  · refine { hserves with
      tidy := heq ▸ h.tidy
      posted := heq ▸ h.posted
      matched := heq ▸ h.matched
      phased := heq ▸ h.phased
      books := ?_ }
    rw [heq]
    exact h.books.mono (fun _ hg => h.given_later hl hg) fun _ hs => hstored hs
  · refine { hserves with
      tidy := heq ▸ h.tidy.step hpatient
      posted := heq ▸ h.posted.step d
      matched := heq ▸ Sender.matched_step h.matched d
      phased := heq ▸ h.phased.imp' (p.sender.granting · d) fun _ hphased =>
        hphased.step h.tidy hpatient
      books := ?_ }
    rw [heq]
    refine h.books.step h.tidy h.posted h.offering hintact (fun _ hg => h.given_later hl hg)
      (fun _ hs => hstored hs) { hpromised with
        vouches := fun id r status errorString body hd hr hsent hle hlt s hs => ?_ }
    obtain ⟨i, x, -, -, hs⟩ := hpromised.vouches id r status errorString body hd hr hsent hle hlt s hs
    exact hstored hs

theorem Start.linked (h : p.Start) : Linked p where
  hearing := by
    have harrived : p.arrived = fun _ => [] := by
      funext i
      unfold arrived
      rw [h.wires]
      rfl
    rw [harrived]
    exact h.receiver.hearing
  count := by rw [h.receiver.nextConn, h.wires]; rfl
  wired x hx := by
    rw [h.wires] at hx
    cases hx
  tidy := h.sender.tidy
  posted id r hr := by
    rw [h.sender.replies] at hr
    cases hr
  matched id r hr := by
    rw [h.sender.replies] at hr
    cases hr
  phased := ⟨[], fun hb => by
    rw [h.sender.service] at hb
    cases hb⟩
  books := h.sender.books

end Pair

end LocalSend
