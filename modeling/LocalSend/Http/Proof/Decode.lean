import LocalSend.Http.Wire

/-!
# The body decoder undoes the encoding

`Owes c wire todo` says what the decoder still expects: read from the start of its buffer, `wire`
is the rest of the body's encoding and `todo` what it decodes to. A turn of the decoder that goes
on keeps it and moves bytes from `todo` to what has been delivered (`chunkTurn_reading`); a turn
that stops has either run out of bytes or just read the last one. The run over a buffer follows
by induction on its passes (`consumeBody_reading`), wherever the buffer happens to end.

The sink takes every byte here and the slots leave the connection alone (`Host.Quiet`).
-/

set_option autoImplicit false

namespace LocalSend

open Wire Lib

variable {σ γ : Type} {H : Host σ} {out : σ → QByteArray} {kept : σ → γ}

/-- The slots and the sink do not touch the connection, the sink takes everything (into `out`),
and what is `kept` changes with none of it. -/
structure Host.Quiet (H : Host σ) (out : σ → QByteArray) (kept : σ → γ) : Prop where
  get_bodyProgress : ∀ s, H.get (H.bodyProgress s) = H.get s
  out_bodyProgress : ∀ s, out (H.bodyProgress s) = out s
  kept_bodyProgress : ∀ s, kept (H.bodyProgress s) = kept s
  out_set : ∀ c s, out (H.set c s) = out s
  kept_set : ∀ c s, kept (H.set c s) = kept s
  write_all : ∀ f data s, (H.write f data s).1 = data.length
  get_write : ∀ f data s, H.get (H.write f data s).2 = H.get s
  out_write : ∀ f data s, out (H.write f data s).2 = out s ++ data
  kept_write : ∀ f data s, kept (H.write f data s).2 = kept s

/-- All of a connection but what the body decoder works on. -/
def HttpConnection.frame (c : HttpConnection) : HttpConnection :=
  { c with
    buffer := []
    body := []
    contentLength := 0
    bodyReceived := 0
    chunkState := .chunkSize
    chunkRemaining := 0
    trailerBytes := 0 }

/-- What has been delivered: the sink's content when there is a sink, else the buffered body. -/
def Host.delivered (H : Host σ) (out : σ → QByteArray) (s : σ) : QByteArray :=
  if (H.get s).sink.isSome then out s else (H.get s).body

/-- There is room for `n` more bytes of body. -/
def HttpConnection.Fits (c : HttpConnection) (n : Nat) : Prop :=
  if c.sink.isSome then c.maxBodyBytes < 0 ∨ (c.bodyReceived : Int) + n ≤ c.maxBodyBytes
  else c.body.length + n ≤ MaxBufferedBody

/-- The decoder went from `s` to `s'`, and `data` is what it delivered on the way. -/
structure Host.Took (H : Host σ) (out : σ → QByteArray) (kept : σ → γ) (s s' : σ)
    (data : QByteArray) : Prop where
  frame : (H.get s').frame = (H.get s).frame
  kept_eq : kept s' = kept s
  delivered : H.delivered out s' = H.delivered out s ++ data
  received : (H.get s').bodyReceived = (H.get s).bodyReceived + data.length
  room : ∀ n, (H.get s).Fits (data.length + n) → (H.get s').Fits n

namespace Host.Took

variable {s s' s'' : σ} {data data' : QByteArray}

theorem trans (h : H.Took out kept s s' data) (h' : H.Took out kept s' s'' data') :
    H.Took out kept s s'' (data ++ data') where
  frame := h'.frame.trans h.frame
  kept_eq := h'.kept_eq.trans h.kept_eq
  delivered := by rw [h'.delivered, h.delivered, List.append_assoc]
  received := by rw [h'.received, h.received, List.length_append, Nat.add_assoc]
  room n hn := h'.room n (h.room _ (by rwa [List.length_append, Nat.add_assoc] at hn))

theorem state (h : H.Took out kept s s' data) : (H.get s').state = (H.get s).state :=
  by
  have := congrArg HttpConnection.state h.frame
  exact this

theorem bodyComplete (h : H.Took out kept s s' data) :
    (H.get s').bodyComplete = (H.get s).bodyComplete :=
  by
  have := congrArg HttpConnection.bodyComplete h.frame
  exact this

theorem chunked (h : H.Took out kept s s' data) : (H.get s').chunked = (H.get s).chunked :=
  by
  have := congrArg HttpConnection.chunked h.frame
  exact this

/-- A change to the decoder's own fields delivers nothing. -/
theorem of_set (hq : H.Quiet out kept) (s : σ) {c : HttpConnection}
    (hframe : c.frame = (H.get s).frame) (hbody : c.body = (H.get s).body)
    (hreceived : c.bodyReceived = (H.get s).bodyReceived) : H.Took out kept s (H.set c s) [] where
  frame := by rw [H.get_set, hframe]
  kept_eq := hq.kept_set c s
  delivered := by
    have : c.sink = (H.get s).sink := by have := congrArg HttpConnection.sink hframe; exact this
    simp only [Host.delivered, H.get_set, hq.out_set, this, hbody, List.append_nil]
  received := by rw [H.get_set, hreceived]; rfl
  room n hn := by
    have h1 : c.sink = (H.get s).sink := by have := congrArg HttpConnection.sink hframe; exact this
    have h2 : c.maxBodyBytes = (H.get s).maxBodyBytes := by
      have := congrArg HttpConnection.maxBodyBytes hframe; exact this
    simpa only [HttpConnection.Fits, H.get_set, h1, h2, hbody, hreceived, List.length_nil,
      Nat.zero_add] using hn

theorem refl (hq : H.Quiet out kept) (s : σ) : H.Took out kept s s [] := by
  have := of_set hq s (c := H.get s) rfl rfl rfl
  rwa [H.set_get] at this

theorem then_set (hq : H.Quiet out kept) (h : H.Took out kept s s' data) {c : HttpConnection}
    (hframe : c.frame = (H.get s').frame) (hbody : c.body = (H.get s').body)
    (hreceived : c.bodyReceived = (H.get s').bodyReceived) :
    H.Took out kept s (H.set c s') data := by
  have := h.trans (of_set hq s' hframe hbody hreceived)
  rwa [List.append_nil] at this

end Host.Took

/-- A block for which there is room is delivered. -/
theorem Host.Quiet.deliver (hq : H.Quiet out kept) {s : σ} (data : QByteArray)
    (hfit : (H.get s).Fits data.length) : ∃ s', H.deliver data s = (true, s') ∧
      H.Took out kept s s' data ∧ (H.get s').buffer = (H.get s).buffer ∧
      (H.get s').chunkState = (H.get s).chunkState ∧
      (H.get s').chunkRemaining = (H.get s).chunkRemaining ∧
      (H.get s').trailerBytes = (H.get s).trailerBytes ∧
      (H.get s').contentLength = (H.get s).contentLength := by
  unfold Host.deliver
  split
  · rename_i hd
    subst hd
    exact ⟨s, rfl, .refl hq s, rfl, rfl, rfl, rfl, rfl⟩
  · rcases hsink : (H.get s).sink with - | f
    · have hfit' : ¬ (H.get s).body.length + data.length > MaxBufferedBody := by
        simpa [HttpConnection.Fits, hsink] using hfit
      simp only [hsink, if_neg hfit', reduceIte]
      refine ⟨_, rfl, ⟨?_, ?_, ?_, ?_, ?_⟩, ?_⟩
      · rw [hq.get_bodyProgress, Port.modify_modify, Port.get_modify]; rfl
      · rw [hq.kept_bodyProgress]; simp only [Port.modify, hq.kept_set]
      · simp [Host.delivered, hq.get_bodyProgress, hsink]
      · simp [hq.get_bodyProgress]
      · intro n hn
        simp only [HttpConnection.Fits, hq.get_bodyProgress, Port.modify_modify, Port.get_modify,
          hsink, Option.isSome_none, Bool.false_eq_true, if_false, List.length_append] at hn ⊢
        omega
      · simp [hq.get_bodyProgress]
    · have hfit' : ¬ ((H.get s).maxBodyBytes ≥ 0 ∧
          ((H.get s).bodyReceived : Int) + data.length > (H.get s).maxBodyBytes) := by
        simp only [HttpConnection.Fits, hsink, Option.isSome_some, if_true] at hfit
        omega
      simp only [hsink, if_neg hfit', hq.write_all, reduceIte]
      refine ⟨_, rfl, ⟨?_, ?_, ?_, ?_, ?_⟩, ?_⟩
      · rw [hq.get_bodyProgress, Port.get_modify, hq.get_write]; rfl
      · rw [hq.kept_bodyProgress]; simp only [Port.modify, hq.kept_set, hq.kept_write]
      · simp [Host.delivered, hq.get_bodyProgress, hq.out_bodyProgress, hq.get_write, hsink,
          Port.modify, hq.out_set, hq.out_write]
      · simp [hq.get_bodyProgress, hq.get_write]
      · intro n hn
        simp only [HttpConnection.Fits, hq.get_bodyProgress, Port.get_modify, hq.get_write,
          hsink, Option.isSome_some, if_true] at hn ⊢
        omega
      · simp [hq.get_bodyProgress, hq.get_write]

/-! ## What the decoder still expects -/

def trailersBytes (ts : List Trailer) : QByteArray := ts.flatMap Trailer.bytes

/-- In this state of the decoder `wire` is the rest of a chunked body and decodes to `todo`; its
trailer lines, and the blank one after them, stay within the bound on the head. -/
inductive OwesChunks (c : HttpConnection) : QByteArray → QByteArray → Prop
  | size (b : ChunkedBody) : c.chunkState = .chunkSize →
      c.trailerBytes + b.trailerBytes.length + 2 ≤ MaxHeadSize → OwesChunks c b.bytes b.payload
  | data (d : QByteArray) (b : ChunkedBody) : c.chunkState = .chunkData → d ≠ [] →
      c.chunkRemaining = d.length → c.trailerBytes + b.trailerBytes.length + 2 ≤ MaxHeadSize →
      OwesChunks c (d ++ (crlf ++ b.bytes)) (d ++ b.payload)
  | crlf (b : ChunkedBody) : c.chunkState = .chunkCrlf →
      c.trailerBytes + b.trailerBytes.length + 2 ≤ MaxHeadSize →
      OwesChunks c (crlf ++ b.bytes) b.payload
  | trailer (ts : List Trailer) : c.chunkState = .chunkTrailer →
      c.trailerBytes + (trailersBytes ts).length + 2 ≤ MaxHeadSize →
      OwesChunks c (trailersBytes ts ++ crlf) []

/-- The decoder is reading, its buffer and the bytes to come are `wire` and then `extra`, and for
what `wire` decodes to there is room. -/
structure Reading (H : Host σ) (Owes : HttpConnection → QByteArray → QByteArray → Prop) (s : σ)
    (wire todo unread extra : QByteArray) : Prop where
  state : (H.get s).state = .readingBody
  bodyComplete : (H.get s).bodyComplete = false
  owes : Owes (H.get s) wire todo
  bytes : (H.get s).buffer ++ unread = wire ++ extra
  fits : (H.get s).Fits todo.length
  range : (H.get s).bodyReceived + todo.length < 2 ^ 63

/-- How a turn ends. -/
inductive TurnEnd (H : Host σ) (out : σ → QByteArray) (kept : σ → γ) (s : σ)
    (todo unread extra : QByteArray) : Bool × σ → Prop
  | again (s' : σ) (wire' todo' data : QByteArray) : todo = data ++ todo' →
      H.Took out kept s s' data → Reading H OwesChunks s' wire' todo' unread extra →
      (H.get s').buffer.length < (H.get s).buffer.length →
      TurnEnd H out kept s todo unread extra (true, s')
  | stuck : unread ≠ [] → TurnEnd H out kept s todo unread extra (false, s)
  | last (s' : σ) : todo = [] → H.Took out kept s s' [] →
      TurnEnd H out kept s todo unread extra (false, H.finishBody s')

/-! ## One turn -/

section
variable {s : σ} {wire todo unread extra tail : QByteArray}

theorem length_lt_of_drop {l : QByteArray} {n : Nat} (hn : 0 < n) (h : n ≤ l.length) :
    (l.drop n).length < l.length := by
  rw [List.length_drop]
  omega

/-- A size line is read whole, or not at all. -/
theorem chunkTurn_sizeLine {n : Nat} (l : SizeLine n) (hn : n < 2 ^ 63)
    (hs : (H.get s).chunkState = .chunkSize)
    (heq : (H.get s).buffer ++ unread = l.bytes ++ crlf ++ tail) :
    (unread ≠ [] ∧ H.chunkTurn s = (false, s)) ∨
    ∃ rest, rest ++ unread = tail ∧ rest.length < (H.get s).buffer.length ∧
      H.chunkTurn s = (true, H.set { H.get s with
        buffer := rest
        chunkRemaining := n
        chunkState := if n = 0 then .chunkTrailer else .chunkData } s) := by
  have hshort : l.bytes.length < MaxHeadSize := l.short
  have hcrlf : crlf.length = 2 := rfl
  rcases l.closes.cut heq with ⟨hlt, hnone, hne⟩ | ⟨hle, hsome, htake, hdrop⟩
  · refine .inl ⟨hne, ?_⟩
    have : ¬ (H.get s).buffer.length > MaxHeadSize := by
      change _ < l.bytes.length + _ at hlt
      omega
    simp only [Host.chunkTurn, hs, hnone, if_neg this]
  · refine .inr ⟨_, hdrop, length_lt_of_drop (by simp [crlf]) hle, ?_⟩
    have hsome' : indexOf crlf (H.get s).buffer = some l.bytes.length := hsome
    have htake' : (H.get s).buffer.take l.bytes.length = l.bytes := htake
    simp only [Host.chunkTurn, hs, hsome', htake', l.parse hn, show ¬ ((n : Int) < 0) by omega,
      if_false, Port.modify_modify, Int.toNat_natCast,
      Int.natCast_eq_zero]
    rfl

/-- Where the bytes `a` are still to come, as many of them as are there are taken. -/
theorem take_min {a buf : QByteArray} (heq : buf ++ unread = a ++ tail) :
    ∃ a', a = buf.take (min a.length buf.length) ++ a' ∧
      buf.drop (min a.length buf.length) ++ unread = a' ++ tail ∧
      (buf.take (min a.length buf.length)).length = min a.length buf.length := by
  rcases Nat.le_total a.length buf.length with hle | hle
  · rw [Nat.min_eq_left hle]
    have h1 := congrArg (List.take a.length) heq
    have h2 := congrArg (List.drop a.length) heq
    rw [List.take_append_of_le_length hle, List.take_left] at h1
    rw [List.drop_append_of_le_length hle, List.drop_left] at h2
    exact ⟨[], by rw [h1, List.append_nil], h2, by rw [List.length_take, Nat.min_eq_left hle]⟩
  · rw [Nat.min_eq_right hle, List.take_length, List.drop_length, List.nil_append]
    have h1 := congrArg (List.take buf.length) heq
    have h2 := congrArg (List.drop buf.length) heq
    rw [List.take_left, List.take_append_of_le_length hle] at h1
    rw [List.drop_left, List.drop_append_of_le_length hle] at h2
    exact ⟨a.drop buf.length, (List.take_append_drop buf.length a).symm.trans (by rw [← h1]), h2, rfl⟩

theorem turnEnd_sizeLine (tail : QByteArray) (hq : H.Quiet out kept)
    (h : Reading H OwesChunks s wire todo unread extra)
    {n : Nat} (l : SizeLine n) (hn : n < 2 ^ 63) (hs : (H.get s).chunkState = .chunkSize)
    (hwire : wire = l.bytes ++ crlf ++ tail)
    (hnext : ∀ c : HttpConnection, c.chunkRemaining = n →
      c.chunkState = (if n = 0 then .chunkTrailer else .chunkData) →
      c.trailerBytes = (H.get s).trailerBytes → OwesChunks c tail todo) :
    TurnEnd H out kept s todo unread extra (H.chunkTurn s) := by
  have heq := h.bytes
  rw [hwire, List.append_assoc _ tail] at heq
  rcases chunkTurn_sizeLine l hn hs heq with ⟨hne, hstop⟩ | ⟨rest, hrest, hlt, hgo⟩
  · rw [hstop]; exact .stuck hne
  · rw [hgo]
    have htook := Host.Took.of_set hq s (c := { H.get s with
        buffer := rest
        chunkRemaining := n
        chunkState := if n = 0 then .chunkTrailer else .chunkData }) rfl rfl rfl
    refine .again _ tail todo [] rfl htook ⟨htook.state.trans h.state,
      htook.bodyComplete.trans h.bodyComplete, ?_, ?_, htook.room _ (by simpa using h.fits), ?_⟩ ?_
    · exact hnext _ (by simp) (by simp) (by simp)
    · simpa using hrest
    · simpa using h.range
    · simpa using hlt

theorem turnEnd_data (hq : H.Quiet out kept) {d : QByteArray} {b : ChunkedBody}
    (h : Reading H OwesChunks s (d ++ (crlf ++ b.bytes)) (d ++ b.payload) unread extra)
    (hs : (H.get s).chunkState = .chunkData) (hd : d ≠ [])
    (hrem : (H.get s).chunkRemaining = d.length)
    (ht : (H.get s).trailerBytes + b.trailerBytes.length + 2 ≤ MaxHeadSize) :
    TurnEnd H out kept s (d ++ b.payload) unread extra (H.chunkTurn s) := by
  have heq := h.bytes
  rw [List.append_assoc d] at heq
  simp only [Host.chunkTurn, hs]
  by_cases hbuf : (H.get s).buffer = []
  · simp only [hbuf, if_true]
    refine .stuck ?_
    rintro rfl
    rw [hbuf] at heq
    simp [hd] at heq
  · obtain ⟨d', hd', hdrop, hlen⟩ := take_min heq
    simp only [hbuf, if_false, hrem]
    generalize htk : (H.get s).buffer.take (min d.length (H.get s).buffer.length) = block at *
    generalize hk : min d.length (H.get s).buffer.length = k at *
    have hpos : 0 < k := by
      have := List.length_pos_iff.2 hd
      have := List.length_pos_iff.2 hbuf
      omega
    obtain ⟨s₁, hs₁⟩ : ∃ s₁, s₁ = H.modify (fun c => { c with
        buffer := c.buffer.drop k
        chunkRemaining := c.chunkRemaining - k }) s := ⟨_, rfl⟩
    have h1 : H.Took out kept s s₁ [] := hs₁ ▸ Host.Took.of_set hq s rfl rfl rfl
    have hsplit : (d ++ b.payload).length = block.length + (d' ++ b.payload).length := by
      rw [hd', List.append_assoc, List.length_append]
    have hfits : (H.get s₁).Fits (block.length + (d' ++ b.payload).length) :=
      h1.room _ (by rw [List.length_nil, Nat.zero_add, ← hsplit]; exact h.fits)
    obtain ⟨s', hdel, h2, hb, hcs, hcr, htb, -⟩ := hq.deliver (s := s₁) block (by
      unfold HttpConnection.Fits at hfits ⊢
      split at hfits <;> simp_all <;> omega)
    have htook := h1.trans h2
    rw [List.nil_append] at htook
    rw [← hs₁, hdel]
    simp only [hs₁, Port.get_modify] at hb hcs hcr htb
    simp only [if_true]
    have hreading : ∀ (s'' : σ) (wire' : QByteArray), H.Took out kept s s'' block →
        (H.get s'').buffer = (H.get s).buffer.drop k → OwesChunks (H.get s'') wire' (d' ++ b.payload) →
        (H.get s).buffer.drop k ++ unread = wire' ++ extra →
        TurnEnd H out kept s (d ++ b.payload) unread extra (true, s'') := by
      intro s'' wire' ht' hbuf' howes hbytes
      refine .again s'' wire' (d' ++ b.payload) block (by rw [hd', List.append_assoc]) ht'
        ⟨ht'.state.trans h.state, ht'.bodyComplete.trans h.bodyComplete, howes,
          by rw [hbuf', hbytes], ht'.room _ (by rw [← hsplit]; exact h.fits), ?_⟩ ?_
      · have := h.range
        rw [ht'.received]
        omega
      · rw [hbuf']
        exact length_lt_of_drop hpos (by omega)
    have hdlen : d.length = k + d'.length := by
      rw [hd', List.length_append, hlen]
    split
    · rename_i hzero
      have hd'nil : d' = [] := List.length_eq_zero_iff.1 (by omega)
      subst hd'nil
      refine hreading _ (crlf ++ b.bytes) (htook.then_set hq rfl rfl rfl) ?_ ?_ hdrop
      · simp [Port.modify, hb]
      · exact .crlf b (by simp) (by simpa [htb] using ht)
    · rename_i hne
      refine hreading s' (d' ++ (crlf ++ b.bytes)) htook hb (.data d' b ?_ ?_ ?_ ?_) ?_
      · rw [hcs]; exact hs
      · rintro rfl; simp only [List.length_nil] at hdlen; omega
      · rw [hcr]; omega
      · rw [htb]; exact ht
      · rw [hdrop, List.append_assoc, List.append_assoc, List.append_assoc]

theorem turnEnd_crlf (hq : H.Quiet out kept) {b : ChunkedBody}
    (h : Reading H OwesChunks s (crlf ++ b.bytes) b.payload unread extra)
    (hs : (H.get s).chunkState = .chunkCrlf)
    (ht : (H.get s).trailerBytes + b.trailerBytes.length + 2 ≤ MaxHeadSize) :
    TurnEnd H out kept s b.payload unread extra (H.chunkTurn s) := by
  have heq : (H.get s).buffer ++ unread = [] ++ crlf ++ (b.bytes ++ extra) := by
    rw [h.bytes, List.nil_append, List.append_assoc]
  have hcrlf : crlf.length = 2 := rfl
  simp only [Host.chunkTurn, hs]
  rcases (closes_nil crlf).cut heq with ⟨hlt, -, hne⟩ | ⟨hle, -, -, hdrop⟩
  · rw [List.length_nil, Nat.zero_add, hcrlf] at hlt
    rw [if_pos hlt]
    exact .stuck hne
  · rw [List.length_nil, Nat.zero_add, hcrlf] at hle hdrop
    rw [if_neg (by omega)]
    have htook : H.Took out kept s (H.modify (fun c => { c with
        buffer := c.buffer.drop 2
        chunkState := .chunkSize }) s) [] := .of_set hq s rfl rfl rfl
    refine .again _ b.bytes b.payload [] rfl htook ⟨htook.state.trans h.state,
      htook.bodyComplete.trans h.bodyComplete, .size b ?_ ?_, ?_,
      htook.room _ (by simpa using h.fits), ?_⟩ ?_
    · simp
    · simpa using ht
    · simpa using hdrop
    · simpa using h.range
    · rw [Port.get_modify]
      exact length_lt_of_drop (by decide) hle

theorem turnEnd_trailer (hq : H.Quiet out kept) {ts : List Trailer}
    (h : Reading H OwesChunks s (trailersBytes ts ++ crlf) [] unread extra)
    (hs : (H.get s).chunkState = .chunkTrailer)
    (ht : (H.get s).trailerBytes + (trailersBytes ts).length + 2 ≤ MaxHeadSize) :
    TurnEnd H out kept s [] unread extra (H.chunkTurn s) := by
  have hcrlf : crlf.length = 2 := rfl
  simp only [Host.chunkTurn, hs]
  rcases ts with - | ⟨t, ts⟩
  · -- only the blank line is left
    have heq : (H.get s).buffer ++ unread = [] ++ crlf ++ extra := h.bytes
    rcases (closes_nil crlf).cut heq with ⟨hlt, hnone, hne⟩ | ⟨hle, hsome, -, hdrop⟩
    · rw [hnone]
      exact .stuck hne
    · have : ¬ (H.get s).trailerBytes + 2 > MaxHeadSize := by omega
      simp only [hsome, List.length_nil, Nat.zero_add, Port.get_modify, this, if_false, if_true,
        Port.modify_modify]
      exact .last _ rfl (.of_set hq s rfl rfl rfl)
  · have heq : (H.get s).buffer ++ unread = t.line ++ crlf ++ (trailersBytes ts ++ crlf ++ extra) := by
      rw [h.bytes]
      simp [trailersBytes, Trailer.bytes]
    have hlen : (trailersBytes (t :: ts)).length = t.line.length + 2 + (trailersBytes ts).length := by
      simp [trailersBytes, Trailer.bytes, hcrlf, Nat.add_assoc]
    rcases t.closes.cut heq with ⟨hlt, hnone, hne⟩ | ⟨hle, hsome, -, hdrop⟩
    · rw [hnone]
      exact .stuck hne
    · have h1 : ¬ (H.get s).trailerBytes + (t.line.length + 2) > MaxHeadSize := by omega
      have h2 : t.line.length ≠ 0 := fun h0 => t.nonempty (List.length_eq_zero_iff.1 h0)
      simp only [hsome, Port.get_modify, h1, h2, if_false, Port.modify_modify]
      have htook : H.Took out kept s (H.modify (fun c => { c with
          trailerBytes := c.trailerBytes + (t.line.length + 2)
          buffer := c.buffer.drop (t.line.length + 2) }) s) [] := .of_set hq s rfl rfl rfl
      refine .again _ (trailersBytes ts ++ crlf) [] [] rfl htook ⟨htook.state.trans h.state,
        htook.bodyComplete.trans h.bodyComplete, .trailer ts ?_ ?_, ?_,
        htook.room _ (by simpa using h.fits), ?_⟩ ?_
      · simpa using hs
      · rw [Port.get_modify]
        change (H.get s).trailerBytes + (t.line.length + 2) + _ + 2 ≤ _
        omega
      · simpa [hcrlf] using hdrop
      · simpa using h.range
      · rw [Port.get_modify]
        exact length_lt_of_drop (by omega) hle

/-- What a turn does to what the decoder expects, one case for each state it may be in. -/
theorem chunkTurn_reading (hq : H.Quiet out kept)
    (h : Reading H OwesChunks s wire todo unread extra) :
    TurnEnd H out kept s todo unread extra (H.chunkTurn s) := by
  cases h.owes with
  | size b hs ht =>
    obtain ⟨chunks, last, trailers⟩ := b
    cases chunks with
    | nil =>
      refine turnEnd_sizeLine (trailersBytes trailers ++ crlf) hq h last (by decide) hs
        (by simp [ChunkedBody.bytes, trailersBytes, ChunkedBody.trailerBytes]) ?_
      intro c _ hc htb
      exact .trailer trailers (by simpa using hc) (by rw [htb]; exact ht)
    | cons k chunks =>
      have hlen : k.data.length ≠ 0 := fun h0 => k.nonempty (List.length_eq_zero_iff.1 h0)
      have hpay : (ChunkedBody.mk (k :: chunks) last trailers).payload =
          k.data ++ (ChunkedBody.mk chunks last trailers).payload := by
        simp [ChunkedBody.payload]
      refine turnEnd_sizeLine (k.data ++ (crlf ++ (ChunkedBody.mk chunks last trailers).bytes))
        hq h k.line ?_ hs (by simp [ChunkedBody.bytes, Chunk.bytes, ChunkedBody.trailerBytes]) ?_
      · have := h.range
        rw [hpay, List.length_append] at this
        omega
      · intro c hrem hc htb
        rw [hpay]
        exact .data _ _ (by simpa [hlen] using hc) k.nonempty hrem (by rw [htb]; exact ht)
  | data d b hs hd hrem ht => exact turnEnd_data hq h hs hd hrem ht
  | crlf b hs ht => exact turnEnd_crlf hq h hs ht
  | trailer ts hs ht => exact turnEnd_trailer hq h hs ht

/-! ## The loops -/

/-- How reading what is in the buffer ends: short of bytes, or with the body complete. -/
inductive BufferRead (H : Host σ) (Owes : HttpConnection → QByteArray → QByteArray → Prop)
    (out : σ → QByteArray) (kept : σ → γ) (s : σ) (todo unread extra : QByteArray) : σ → Prop
  | stuck (s' : σ) (wire' todo' data : QByteArray) : todo = data ++ todo' →
      H.Took out kept s s' data → Reading H Owes s' wire' todo' unread extra → unread ≠ [] →
      BufferRead H Owes out kept s todo unread extra s'
  | complete (s' : σ) : H.Took out kept s s' todo →
      BufferRead H Owes out kept s todo unread extra (H.finishBody s')

theorem consumeChunkedBody_reading (hq : H.Quiet out kept) :
    ∀ (n : Nat) {s : σ} {wire todo : QByteArray}, (H.get s).buffer.length < n →
      Reading H OwesChunks s wire todo unread extra →
      BufferRead H OwesChunks out kept s todo unread extra (H.consumeChunkedBody n s)
  | 0, _, _, _, hn, _ => absurd hn (Nat.not_lt_zero _)
  | n + 1, s, wire, todo, hn, h => by
    have hturn := chunkTurn_reading hq h
    unfold Host.consumeChunkedBody
    generalize H.chunkTurn s = t at hturn
    cases hturn with
    | again s' wire' todo' data htodo htook h' hlt =>
      have hrest := consumeChunkedBody_reading hq n (by omega) h'
      change BufferRead H OwesChunks out kept s todo unread extra (H.consumeChunkedBody n s')
      generalize H.consumeChunkedBody n s' = r at hrest
      cases hrest with
      | stuck s₂ wire₂ todo₂ data₂ htodo₂ htook₂ h₂ hne =>
        exact .stuck r wire₂ todo₂ (data ++ data₂) (by rw [htodo, htodo₂, List.append_assoc])
          (htook.trans htook₂) h₂ hne
      | complete s₂ htook₂ => exact .complete s₂ (htodo ▸ htook.trans htook₂)
    | stuck hne => exact .stuck s wire todo [] rfl (.refl hq s) h hne
    | last s' htodo htook => exact .complete s' (htodo ▸ htook)

/-- Of a body with a declared length, what is left of it is still to come. -/
def OwesSized (c : HttpConnection) (wire todo : QByteArray) : Prop :=
  wire = todo ∧ c.contentLength = c.bodyReceived + todo.length

theorem consumeSized_reading (hq : H.Quiet out kept) :
    ∀ (n : Nat) {s : σ} {todo : QByteArray}, (H.get s).buffer.length ≤ n →
      Reading H OwesSized s todo todo unread extra →
      ∃ s' data todo', H.consumeSized n s = (true, s') ∧ todo = data ++ todo' ∧
        H.Took out kept s s' data ∧ Reading H OwesSized s' todo' todo' unread extra ∧
        (todo' = [] ∨ (H.get s').buffer = [])
  | 0, s, todo, hn, h =>
    ⟨s, [], todo, rfl, rfl, .refl hq s, h, .inr (List.length_eq_zero_iff.1 (Nat.le_zero.1 hn))⟩
  | n + 1, s, todo, hn, h => by
    have hlen := h.owes.2
    unfold Host.consumeSized
    by_cases hstop : todo = [] ∨ (H.get s).buffer = []
    · refine ⟨s, [], todo, ?_, rfl, .refl hq s, h, hstop⟩
      rw [if_neg]
      rintro ⟨h1, h2⟩
      rcases hstop with rfl | hb
      · rw [hlen, List.length_nil] at h1; omega
      · exact h2 hb
    · obtain ⟨htodo, hbuf⟩ := not_or.1 hstop
      have htodo' := List.length_pos_iff.2 htodo
      have hbuf' := List.length_pos_iff.2 hbuf
      have htake : ((H.get s).contentLength - (H.get s).bodyReceived).toNat = todo.length := by omega
      obtain ⟨todo', hsplit, hdrop, hblock⟩ := take_min h.bytes
      rw [if_pos ⟨by omega, hbuf⟩]
      simp only [htake]
      generalize (H.get s).buffer.take (min todo.length (H.get s).buffer.length) = block at *
      generalize hk : min todo.length (H.get s).buffer.length = k at *
      obtain ⟨s₁, hs₁⟩ : ∃ s₁, s₁ = H.modify (fun c => { c with buffer := c.buffer.drop k }) s :=
        ⟨_, rfl⟩
      have h1 : H.Took out kept s s₁ [] := hs₁ ▸ Host.Took.of_set hq s rfl rfl rfl
      have hfits : (H.get s₁).Fits (block.length + todo'.length) :=
        h1.room _ (by
          have := h.fits
          rw [hsplit, List.length_append] at this
          rwa [List.length_nil, Nat.zero_add])
      obtain ⟨s', hdel, h2, hb, -, -, -, hcl⟩ := hq.deliver (s := s₁) block (by
        unfold HttpConnection.Fits at hfits ⊢
        split at hfits <;> simp_all <;> omega)
      have htook := h1.trans h2
      rw [List.nil_append] at htook
      simp only [hs₁, Port.get_modify] at hb hcl
      have h' : Reading H OwesSized s' todo' todo' unread extra := by
        refine ⟨htook.state.trans h.state, htook.bodyComplete.trans h.bodyComplete, ⟨rfl, ?_⟩,
          by rw [hb, hdrop], htook.room _ ?_, ?_⟩
        · rw [hcl, htook.received, hlen, hsplit, List.length_append]
          omega
        · rw [← List.length_append, ← hsplit]
          exact h.fits
        · have := h.range
          rw [hsplit, List.length_append] at this
          rw [htook.received]
          omega
      obtain ⟨s₂, data, todo₂, hrun, htodo₂, htook₂, h₂, hend⟩ :=
        consumeSized_reading hq n (s := s') (by
          rw [hb, List.length_drop]
          omega) h'
      refine ⟨s₂, block ++ data, todo₂, ?_, by rw [hsplit, htodo₂, List.append_assoc],
        htook.trans htook₂, h₂, hend⟩
      rw [← hs₁, hdel]
      simpa using hrun

/-- What is still expected of the body, however it is framed. -/
def Owes (c : HttpConnection) (wire todo : QByteArray) : Prop :=
  if c.chunked then OwesChunks c wire todo else OwesSized c wire todo

/-- What is expected depends on the decoder's own fields only. -/
theorem Owes.congr {c c' : HttpConnection} (h : Owes c wire todo) (h1 : c'.chunked = c.chunked)
    (h2 : c'.chunkState = c.chunkState) (h3 : c'.chunkRemaining = c.chunkRemaining)
    (h4 : c'.trailerBytes = c.trailerBytes) (h5 : c'.contentLength = c.contentLength)
    (h6 : c'.bodyReceived = c.bodyReceived) : Owes c' wire todo := by
  unfold Owes OwesSized at h ⊢
  rw [h1, h5, h6]
  split at h
  · rename_i hch
    rw [if_pos hch]
    cases h with
    | size b hs ht => exact .size b (h2 ▸ hs) (h4 ▸ ht)
    | data d b hs hd hrem ht => exact .data d b (h2 ▸ hs) hd (h3 ▸ hrem) (h4 ▸ ht)
    | crlf b hs ht => exact .crlf b (h2 ▸ hs) (h4 ▸ ht)
    | trailer ts hs ht => exact .trailer ts (h2 ▸ hs) (h4 ▸ ht)
  · rename_i hch
    rw [if_neg hch]
    exact h

theorem Reading.imp {O O' : HttpConnection → QByteArray → QByteArray → Prop}
    (h : Reading H O s wire todo unread extra)
    (himp : O (H.get s) wire todo → O' (H.get s) wire todo) :
    Reading H O' s wire todo unread extra :=
  ⟨h.state, h.bodyComplete, himp h.owes, h.bytes, h.fits, h.range⟩

theorem consumeBody_reading (hq : H.Quiet out kept) (h : Reading H Owes s wire todo unread extra) :
    BufferRead H Owes out kept s todo unread extra (H.consumeBody s) := by
  unfold Host.consumeBody
  simp only [h.state, h.bodyComplete, ne_eq, not_true_eq_false, Bool.false_eq_true, or_self,
    if_false]
  by_cases hch : (H.get s).chunked = true
  · rw [if_pos hch]
    have hrun := consumeChunkedBody_reading hq (2 * (H.get s).buffer.length + 2) (by omega)
      (h.imp fun ho => by rwa [Owes, if_pos hch] at ho)
    generalize H.consumeChunkedBody _ s = r at hrun ⊢
    cases hrun with
    | stuck _ wire' todo' data htodo htook h' hne =>
      exact .stuck r wire' todo' data htodo htook
        (h'.imp fun ho => by rwa [Owes, if_pos (htook.chunked.trans hch)]) hne
    | complete s' htook => exact .complete s' htook
  · rw [if_neg hch]
    have h0 : Reading H OwesSized s wire todo unread extra :=
      h.imp fun ho => by rwa [Owes, if_neg hch] at ho
    have hw : wire = todo := h0.owes.1
    subst hw
    obtain ⟨s', data, todo', hrun, htodo, htook, h', hend⟩ :=
      consumeSized_reading hq _ (Nat.le_refl _) h0
    have hlen := h'.owes.2
    rw [hrun]
    simp only [true_and]
    split
    · rename_i hge
      have hnil : todo' = [] := List.length_eq_zero_iff.1 (by omega)
      rw [hnil, List.append_nil] at htodo
      exact .complete s' (htodo ▸ htook)
    · rename_i hlt
      have hne : todo' ≠ [] := by
        rintro rfl
        rw [List.length_nil] at hlen
        omega
      refine .stuck s' todo' todo' data htodo htook
        (h'.imp fun ho => by rwa [Owes, if_neg (htook.chunked ▸ hch)]) ?_
      rintro rfl
      have hb := h'.bytes
      rw [hend.resolve_left hne] at hb
      simp [hne] at hb

end

end LocalSend
