import LocalSend.Http.Proof.Framing
import LocalSend.Receive.Proof.Titles
import LocalSend.Send.Sender

/-!
# A request on its way

What the sending side hands to the network manager (`Content`), and the stream of bytes that the
network manager makes of it: a head that says what the request asks for, and then its body, of the
length that is stated (`Content.Carries`). The receiving side reads the same request from the
stream.
-/

set_option autoImplicit false

namespace LocalSend

namespace Content

/-- The path of the request, below the prefix of the API. -/
def path : Content → QString
  | .introduction _ => Protocol.PathRegister
  | .fileList .. => Protocol.PathPrepareUpload
  | .fileBytes .. => Protocol.PathUpload
  | .cancellation _ => Protocol.PathCancel

def query : Content → List (QString × QString)
  | .introduction _ => []
  | .fileList pin _ => if pin = [] then [] else [(str "pin", pin)]
  | .fileBytes sessionId fileId token _ _ =>
    [(str "sessionId", sessionId), (str "fileId", fileId), (str "token", token)]
  | .cancellation sessionId => [(str "sessionId", sessionId)]

def body : Content → QByteArray
  | .introduction body => body
  | .fileList _ body => body
  | .fileBytes _ _ _ _ bytes => bytes
  | .cancellation _ => []

/-- The Content-Length: an upload states the size of its row. -/
def length : Content → Int
  | .fileBytes _ _ _ length _ => length
  | content => content.body.length

/-- What the request asks for. -/
def title (content : Content) : Title :=
  (str "POST", endpoint content.path,
    content.query.foldl (fun q (item : QString × QString) => q.insert item.1 item.2) ∅)

variable [Qt]

/-- The head says this. -/
structure Heads (content : Content) (head : QByteArray) : Prop where
  accepted : (Port.readHead head (.accepted 0 [] none)).2 = true
  title : (Port.readHead head (.accepted 0 [] none)).1.title = content.title
  chunked : (Port.readHead head (.accepted 0 [] none)).1.chunked = false
  length : ∃ value, (Port.readHead head (.accepted 0 [] none)).1.headers.lookup
    (ascii "content-length") = some value ∧ QByteArray.toLongLong 10 value = some content.length

/-- The stream is this request: a head, and exactly the bytes of the body. -/
def Carries (content : Content) (stream : QByteArray) : Prop := ∃ head,
  stream = head ++ (crlf ++ crlf) ++ content.body ∧
    Lib.indexOf (crlf ++ crlf) stream = some head.length ∧ content.Heads head

variable {content : Content} {stream : QByteArray}

instance (content : Content) (head : QByteArray) : Decidable (content.Heads head) :=
  let c := (Port.readHead head (.accepted 0 [] none)).1
  decidable_of_iff ((Port.readHead head (.accepted 0 [] none)).2 = true ∧
    (c.method = content.title.1 ∧ c.path = content.title.2.1 ∧
      c.query.entries = content.title.2.2.entries) ∧ c.chunked = false ∧
        ∃ value ∈ c.headers.lookup (ascii "content-length"),
          QByteArray.toLongLong 10 value = some content.length)
    ⟨fun ⟨haccepted, ⟨hmethod, hpath, hquery⟩, hchunked, hlength⟩ => ⟨haccepted,
      Prod.ext hmethod (Prod.ext hpath (AList.ext hquery)), hchunked, hlength⟩,
    fun h => ⟨h.accepted, ⟨congrArg Prod.fst h.title, congrArg (fun t => t.2.1) h.title,
      congrArg (fun t => t.2.2.entries) h.title⟩, h.chunked, h.length⟩⟩

instance (content : Content) (stream : QByteArray) : Decidable (content.Carries stream) :=
  decidable_of_iff (∃ n ∈ Lib.indexOf (crlf ++ crlf) stream,
      stream = stream.take n ++ (crlf ++ crlf) ++ content.body ∧ content.Heads (stream.take n))
    ⟨fun ⟨n, hn, hstream, hheads⟩ => ⟨stream.take n, hstream, by
      rw [List.length_take_of_le (Lib.indexOf_le hn |>.trans' (Nat.le_add_right _ _))]
      exact hn, hheads⟩,
    fun ⟨head, hstream, hn, hheads⟩ => ⟨head.length, hn, by
      have htake : stream.take head.length = head := by
        rw [hstream, List.append_assoc, List.take_left]
      rw [htake]
      exact ⟨hstream, hheads⟩⟩⟩

theorem Carries.titleOf (h : content.Carries stream) : titleOf stream = some content.title := by
  obtain ⟨head, rfl, hfin, hheads⟩ := h
  unfold LocalSend.titleOf
  rw [hfin, Option.map_some, List.append_assoc, List.take_left, hheads.title]

/-- The receiving side reads the body that was sent. -/
theorem Carries.scan (h : content.Carries stream) (hlength : content.length = content.body.length) :
    Judge.lenient.scan stream = ⟨.complete, content.body⟩ := by
  obtain ⟨head, rfl, hfin, hheads⟩ := h
  obtain ⟨value, hlookup, hvalue⟩ := hheads.length
  have hmethod : (Port.readHead head (.accepted 0 [] none)).1.method ≠ str "OPTIONS" := by
    rw [show (Port.readHead head (.accepted 0 [] none)).1.method = str "POST" from
      congrArg Prod.fst hheads.title]
    decide
  have hafter : Judge.lenient.afterHead head =
      if content.body.length = 0 then .complete else .sized content.body.length := by
    have hstated : Judge.lenient.length value = some content.body.length := by
      change some ((QByteArray.toLongLong 10 value).getD 0).toNat = _
      rw [hvalue, hlength]
      rfl
    have haccepted := hheads.accepted
    have hchunked := hheads.chunked
    unfold Judge.afterHead
    rcases hread : Port.readHead head (.accepted 0 [] none) with ⟨c, ok⟩
    rw [hread] at hmethod hlookup haccepted hchunked
    obtain rfl : ok = true := haccepted
    simp only at hmethod hlookup hchunked ⊢
    rw [if_neg hmethod, if_neg (by rw [hchunked]; exact Bool.false_ne_true), hlookup]
    simp only [hstated]
    cases content.body.length <;> rfl
  have hscan := Judge.scan_afterHead (J := Judge.lenient) hfin
  have hlen : head.length + 4 = (head ++ (crlf ++ crlf)).length := by
    rw [List.length_append]
    rfl
  rw [hlen, List.take_left, List.append_assoc, List.take_left, hafter] at hscan
  rw [Judge.scan_append, hscan, Judge.foldl_sized (Nat.le_refl _), Nat.sub_self, if_pos rfl,
    List.nil_append]

end Content

end LocalSend
