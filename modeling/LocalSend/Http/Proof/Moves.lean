import LocalSend.Http.Connection

/-!
# A rule for reading, move by move

`Host.FineRule H I Q` collects what has to be shown of the slots, of the sink and of answers for `I`
to hold as long as a connection reads, and for `Q` to hold when it stops before its request is in,
whatever the segment and the state it meets. It is told what the decoder does with the framing of a
body: a `Move`, a block it `Takes`, what it `Refuses`, and where it `Stops` to wait for more.
`FineRule.onReadyRead` is what follows: `onReadyRead` ends in `Q`, or `requestReady` runs on what
was read up to then (`Split`). `I` is told which bytes are in hand: taken off the buffer, not yet
delivered.
-/

set_option autoImplicit false

namespace LocalSend

namespace HttpConnection

/-- The connection is reading its body. -/
def InBody (c : HttpConnection) : Prop := c.state = .readingBody ∧ c.bodyComplete = false

/-- An upper bound on the turns the chunk decoder can take with what it has. -/
def turnsLeft (c : HttpConnection) : Nat :=
  2 * c.buffer.length + if c.chunkState = .chunkData then 1 else 0

/-- What the chunk decoder does with the framing. -/
inductive Move (c : HttpConnection) : HttpConnection → Prop
  | size {eol n : Nat} : c.chunkState = .chunkSize → Lib.indexOf crlf c.buffer = some eol →
      Host.sizeOfLine (c.buffer.take eol) = some (n : Int) → Move c { c with
        buffer := c.buffer.drop (eol + 2)
        chunkRemaining := n
        chunkState := if n = 0 then .chunkTrailer else .chunkData }
  | dataEnd : c.chunkState = .chunkData → c.chunkRemaining = 0 →
      Move c { c with chunkState := .chunkCrlf }
  | ending : c.chunkState = .chunkCrlf → 2 ≤ c.buffer.length → Move c { c with
      buffer := c.buffer.drop 2
      chunkState := .chunkSize }
  | trailer {eol : Nat} : c.chunkState = .chunkTrailer → Lib.indexOf crlf c.buffer = some eol →
      eol ≠ 0 → c.trailerBytes + (eol + 2) ≤ MaxHeadSize → Move c { c with
        trailerBytes := c.trailerBytes + (eol + 2)
        buffer := c.buffer.drop (eol + 2) }
  | last : c.chunkState = .chunkTrailer → Lib.indexOf crlf c.buffer = some 0 →
      c.trailerBytes + 2 ≤ MaxHeadSize → Move c { c with
        trailerBytes := c.trailerBytes + 2
        buffer := c.buffer.drop 2
        chunkState := .chunkDone
        contentLength := c.bodyReceived }

/-- `n` bytes of body are taken off the buffer. -/
inductive Takes (c : HttpConnection) (n : Nat) : HttpConnection → Prop
  | sized : c.chunked = false → (c.bodyReceived : Int) + n ≤ c.contentLength →
      n ≤ c.buffer.length → Takes c n { c with buffer := c.buffer.drop n }
  | chunk : c.chunked = true → c.chunkState = .chunkData → n ≤ c.chunkRemaining →
      n ≤ c.buffer.length → Takes c n { c with
        buffer := c.buffer.drop n
        chunkRemaining := c.chunkRemaining - n }

/-- What the chunk decoder refuses with which status, and how it leaves the connection. -/
inductive Refuses (c : HttpConnection) : Nat → HttpConnection → Prop
  | longSize : c.chunkState = .chunkSize → Lib.indexOf crlf c.buffer = none →
      MaxHeadSize < c.buffer.length → Refuses c 400 c
  | size {eol : Nat} : c.chunkState = .chunkSize → Lib.indexOf crlf c.buffer = some eol →
      (∀ n : Nat, Host.sizeOfLine (c.buffer.take eol) ≠ some (n : Int)) →
      Refuses c 400 { c with buffer := c.buffer.drop (eol + 2) }
  | longTrailer {eol : Nat} : c.chunkState = .chunkTrailer →
      Lib.indexOf crlf c.buffer = some eol → MaxHeadSize < c.trailerBytes + (eol + 2) →
      Refuses c 431 { c with trailerBytes := c.trailerBytes + (eol + 2) }

/-- There is no room for `n` more bytes of body. -/
def NoRoom (c : HttpConnection) (n : Nat) : Prop :=
  match c.sink with
  | some _ => c.maxBodyBytes ≥ 0 ∧ (c.bodyReceived : Int) + n > c.maxBodyBytes
  | none => c.body.length + n > MaxBufferedBody

/-- Where reading waits for more. -/
inductive Stops (c : HttpConnection) : Prop
  | head : c.state = .readingHeaders → Lib.indexOf (crlf ++ crlf) c.buffer = none →
      c.buffer.length ≤ MaxHeadSize → Stops c
  | size : c.InBody → c.chunked = true → c.chunkState = .chunkSize →
      Lib.indexOf crlf c.buffer = none → c.buffer.length ≤ MaxHeadSize → Stops c
  | data : c.InBody → c.chunked = true → c.chunkState = .chunkData → c.buffer = [] → Stops c
  | ending : c.InBody → c.chunked = true → c.chunkState = .chunkCrlf → c.buffer.length < 2 → Stops c
  | trailer : c.InBody → c.chunked = true → c.chunkState = .chunkTrailer →
      Lib.indexOf crlf c.buffer = none → Stops c
  | done : c.InBody → c.chunked = true → c.chunkState = .chunkDone → Stops c
  | sized : c.InBody → c.chunked = false → (c.bodyReceived : Int) < c.contentLength →
      c.buffer = [] → Stops c

/-- All of the body has been read. -/
structure AllRead (c : HttpConnection) : Prop where
  chunked : c.chunked = true → c.chunkState = .chunkDone
  sized : c.chunked = false → (c.bodyReceived : Int) ≥ c.contentLength

/-- `c'` is `c` once it has read its head: what follows the head is still in the buffer. -/
def HeadRead [Qt] (c c' : HttpConnection) : Prop :=
  c.state = .readingHeaders ∧ ∃ fin c₁, Lib.indexOf (crlf ++ crlf) c.buffer = some fin ∧
    Port.readHead (c.buffer.take fin) { c with buffer := c.buffer.drop (fin + 4) } = (c₁, true) ∧
    c' = { c₁ with state := .readingBody }

/-- `c'` is what `c` has become by the time its head is refused. -/
def HeadRefused [Qt] (c c' : HttpConnection) : Prop :=
  c.state = .readingHeaders ∧ ∃ fin, Lib.indexOf (crlf ++ crlf) c.buffer = some fin ∧
    Port.readHead (c.buffer.take fin) { c with buffer := c.buffer.drop (fin + 4) } = (c', false)

/-- The body is in. -/
def completed (c : HttpConnection) : HttpConnection :=
  { c with
    bodyComplete := true
    idleTimer := none
    buffer := [] }

/-- A segment has come in. -/
def feed (data : QByteArray) (c : HttpConnection) : HttpConnection :=
  { c with
    idleTimer := some (c.now + c.idleInterval)
    buffer := c.buffer ++ data }

variable {c c' : HttpConnection}

theorem Move.inBody (h : c.Move c') (hb : c.InBody) : c'.InBody := by
  cases h <;> exact hb

theorem Move.chunked (h : c.Move c') : c'.chunked = c.chunked := by
  cases h <;> rfl

/-- A move takes something off the buffer. -/
theorem Move.shrinks (h : c.Move c') : ∃ l, c.buffer = l ++ c'.buffer := by
  cases h with
  | dataEnd => exact ⟨[], rfl⟩
  | size | ending | trailer | last => exact ⟨_, (List.take_append_drop _ _).symm⟩

theorem Takes.buffer {n : Nat} (h : c.Takes n c') : c'.buffer = c.buffer.drop n := by
  cases h <;> rfl

theorem Takes.inBody {n : Nat} (h : c.Takes n c') (hb : c.InBody) : c'.InBody := by
  cases h <;> exact hb

/-- A line was taken off the buffer. -/
theorem turnsLeft_line {eol : Nat} (heol : Lib.indexOf crlf c.buffer = some eol)
    (hbuf : c'.buffer = c.buffer.drop (eol + 2)) : c'.turnsLeft < c.turnsLeft := by
  have hle : eol + 2 ≤ c.buffer.length := Lib.indexOf_le heol
  unfold turnsLeft
  rw [hbuf, List.length_drop]
  split <;> omega

end HttpConnection

variable {σ : Type}

/-- What the surroundings of a connection have to satisfy, the decoder apart. -/
structure Host.Slots [Qt] (H : Host σ) (I : QByteArray → σ → Prop) (Q : σ → Prop) : Prop where
  get_bodyProgress : ∀ s, H.get (H.bodyProgress s) = H.get s
  get_write : ∀ f data s, H.get (H.write f data s).2 = H.get s
  keep : ∀ {s data}, I data s → (H.get s).InBody → (H.get s).sink = none →
    (H.get s).body.length + data.length ≤ MaxBufferedBody →
    I [] (H.bodyProgress (H.modify (fun c => { c with
      body := c.body ++ data
      bodyReceived := c.bodyReceived + data.length }) s))
  write : ∀ {s f data}, I data s → (H.get s).InBody → (H.get s).sink = some f →
    ((H.get s).maxBodyBytes ≥ 0 →
      ((H.get s).bodyReceived : Int) + data.length ≤ (H.get s).maxBodyBytes) →
    (H.write f data s).1 = data.length →
    I [] (H.bodyProgress (H.modify (fun c => { c with
      bodyReceived := c.bodyReceived + data.length }) (H.write f data s).2))
  short : ∀ {s f data}, I data s → (H.get s).InBody → (H.get s).sink = some f →
    ((H.get s).maxBodyBytes ≥ 0 →
      ((H.get s).bodyReceived : Int) + data.length ≤ (H.get s).maxBodyBytes) →
    (H.write f data s).1 ≠ data.length → Q (H.fail 500 (H.write f data s).2)
  longHead : ∀ {s}, I [] s → (H.get s).state = .readingHeaders →
    Lib.indexOf (crlf ++ crlf) (H.get s).buffer = none →
    MaxHeadSize < (H.get s).buffer.length → Q (H.fail 431 s)
  badHead : ∀ {s c}, I [] s → (H.get s).HeadRefused c → Q (H.fail 400 (H.set c s))
  headers : ∀ {s c}, I [] s → (H.get s).HeadRead c → c.method ≠ str "OPTIONS" →
    ((H.get (H.headersReady (H.set c s))).state ≠ .readingBody →
      Q (H.headersReady (H.set c s))) ∧
    ((H.get (H.headersReady (H.set c s))).state = .readingBody →
      I [] (H.headersReady (H.set c s)) ∧
      (H.get (H.headersReady (H.set c s))).bodyComplete = false)
  preflight : ∀ {s c}, I [] s → (H.get s).HeadRead c → c.method = str "OPTIONS" →
    Q (H.respond 204 [] [] (H.set c s))

/-- And what has to hold of each of the decoder's moves. -/
structure Host.FineRule [Qt] (H : Host σ) (I : QByteArray → σ → Prop) (Q : σ → Prop) : Prop
    extends H.Slots I Q where
  stop : ∀ {s}, I [] s → (H.get s).Stops → Q s
  move : ∀ {s c}, I [] s → (H.get s).InBody → (H.get s).chunked = true → (H.get s).Move c →
    I [] (H.set c s)
  goAhead : ∀ {s}, I [] s → (H.get s).InBody →
    I [] (H.modify (fun c => { c with sent := c.sent ++ [.continue100] }) s)
  take : ∀ {s c} n, I [] s → (H.get s).InBody → (H.get s).Takes n c →
    I ((H.get s).buffer.take n) (H.set c s)
  refuse : ∀ {s c status}, I [] s → (H.get s).InBody → (H.get s).chunked = true →
    (H.get s).Refuses status c → Q (H.fail status (H.set c s))
  tooLong : ∀ {s data}, I data s → (H.get s).InBody → (H.get s).NoRoom data.length →
    Q (H.fail 413 s)

namespace Host

/-- `I` and what `R` says of the connection while the loop goes on, `Q` once it stops. -/
def Next (H : Host σ) (I : QByteArray → σ → Prop) (Q : σ → Prop) (R : HttpConnection → Prop)
    (r : Bool × σ) : Prop :=
  if r.1 then I [] r.2 ∧ (H.get r.2).InBody ∧ R (H.get r.2) else Q r.2

/-- Bytes were delivered from `c`, and nothing else was done. -/
def Delivered (c c' : HttpConnection) : Prop :=
  ∃ body received, c' = { c with body := body, bodyReceived := received }

/-- `t` is what reading comes to with a handler of `requestReady` and `r` without one: the same, or
the handler ran on `r`, which a body that was just completed left. -/
def Split (H : Host σ) (I : QByteArray → σ → Prop) (Q : σ → Prop) (t r : σ) : Prop :=
  (t = r ∧ Q t) ∨ ∃ s, I [] s ∧ (H.get s).InBody ∧ (H.get s).AllRead ∧
    r = H.modify HttpConnection.completed s ∧ t = H.requestReady r

/-- A turn of the decoder. -/
def Turned (c c' : HttpConnection) : Prop :=
  c'.chunked = c.chunked ∧ c'.turnsLeft < c.turnsLeft

/-- `Split` for a turn: the same, or the last one. -/
def SplitTurn (H : Host σ) (I : QByteArray → σ → Prop) (Q : σ → Prop) (R : HttpConnection → Prop)
    (t r : Bool × σ) : Prop :=
  (t = r ∧ H.Next I Q R t) ∨ t.1 = false ∧ r.1 = false ∧ H.Split I Q t.2 r.2

theorem deliver_mute (H : Host σ) : H.mute.deliver = H.deliver := rfl

theorem consumeSized_mute (H : Host σ) : ∀ (n : Nat) (s : σ),
    H.mute.consumeSized n s = H.consumeSized n s
  | 0, _ => rfl
  | n + 1, s => by
    unfold Host.consumeSized
    simp only [deliver_mute, consumeSized_mute H n]

/-- Only the end of the trailer completes a body. -/
theorem chunkTurn_mute {H : Host σ} {s : σ} (hcs : (H.get s).chunkState ≠ .chunkTrailer) :
    H.mute.chunkTurn s = H.chunkTurn s := by
  unfold Host.chunkTurn
  simp only [deliver_mute]
  cases hstate : (H.get s).chunkState with
  | chunkTrailer => exact absurd hstate hcs
  | _ => rfl

theorem split_finishBody {H : Host σ} {I : QByteArray → σ → Prop} {Q : σ → Prop} {s : σ}
    (hI : I [] s) (hb : (H.get s).InBody) (hl : (H.get s).AllRead) :
    H.Split I Q (H.finishBody s) (H.mute.finishBody s) := by
  have hne : ¬ (H.get s).bodyComplete = true := by
    rw [hb.2]
    decide
  unfold Host.finishBody
  simp only [if_neg hne]
  exact .inr ⟨s, hI, hb, hl, rfl, rfl⟩

theorem modify_feed (H : Host σ) (data : QByteArray) (s : σ) :
    H.modify (fun c => { c with buffer := c.buffer ++ data })
      (H.modify (fun c => { c with idleTimer := some (c.now + c.idleInterval) }) s) =
      H.modify (HttpConnection.feed data) s := by
  rw [Port.modify_modify]
  rfl

/-- Of a connection, `readHead` changes what the head says only. -/
theorem readHead_eq [Qt] (head : QByteArray) (c : HttpConnection) :
    ∃ method path query headers headerDeadline chunked contentLength,
      (Port.readHead head c).1 = { c with
        method := method
        path := path
        query := query
        headers := headers
        headerDeadline := headerDeadline
        chunked := chunked
        contentLength := contentLength } := by
  unfold Port.readHead
  split
  · exact ⟨_, _, _, _, _, _, _, rfl⟩
  · split
    · simp only
      split
      · exact ⟨_, _, _, _, _, _, _, rfl⟩
      · exact ⟨_, _, _, _, _, _, _, rfl⟩
    · exact ⟨_, _, _, _, _, _, _, rfl⟩

/-- What comes after an answer or a body is not read. -/
theorem onReadyRead_late [Qt] (H : Host σ) {s : σ} (data : QByteArray)
    (hc : (H.get s).state = .responded ∨ (H.get s).bodyComplete = true) :
    H.onReadyRead data s = H.modify (fun c => { c with
      idleTimer := some (c.now + c.idleInterval) }) s := by
  unfold Host.onReadyRead
  extract_lets s₁
  exact if_pos (by simpa only [s₁, Port.get_modify] using hc)

namespace FineRule

variable [Qt] {H : Host σ} {I : QByteArray → σ → Prop} {Q : σ → Prop} {s : σ}

/-! ## A block -/

theorem deliver (h : H.FineRule I Q) {data : QByteArray} (hI : I data s) (hb : (H.get s).InBody) :
    H.Next I Q (Delivered (H.get s)) (H.deliver data s) := by
  have progress : ∀ {s'}, I [] (H.bodyProgress s') → (H.get s').InBody →
      Delivered (H.get s) (H.get s') →
      H.Next I Q (Delivered (H.get s)) (true, H.bodyProgress s') :=
    fun hI hb hd => ⟨hI, by rwa [h.get_bodyProgress], by rwa [h.get_bodyProgress]⟩
  unfold Host.deliver
  split
  · rename_i hd
    subst hd
    exact ⟨hI, hb, (H.get s).body, (H.get s).bodyReceived, rfl⟩
  · rcases hsink : (H.get s).sink with - | f
    · simp only [hsink]
      split
      · rename_i hlong
        exact h.tooLong hI hb (by simpa [HttpConnection.NoRoom, hsink] using hlong)
      · rename_i hfit
        simp only [if_true, Port.modify_modify]
        refine progress (h.keep hI hb hsink (Nat.le_of_not_lt hfit)) ?_ ?_
        · rw [Port.get_modify]
          exact hb
        · rw [Port.get_modify]
          exact ⟨_, _, rfl⟩
    · simp only [hsink]
      split
      · rename_i hlong
        exact h.tooLong hI hb (by simpa [HttpConnection.NoRoom, hsink] using hlong)
      · rename_i hfit
        have hroom : (H.get s).maxBodyBytes ≥ 0 →
            ((H.get s).bodyReceived : Int) + data.length ≤ (H.get s).maxBodyBytes := by omega
        by_cases hw : (H.write f data s).1 = data.length
        · simp only [hw, if_true]
          refine progress (h.write hI hb hsink hroom hw) ?_ ?_
          · rw [Port.get_modify, h.get_write]
            exact hb
          · rw [Port.get_modify, h.get_write]
            exact ⟨(H.get s).body, _, rfl⟩
        · simp only [hw, if_false]
          exact h.short hI hb hsink hroom hw

/-- Bytes are taken off the buffer and delivered. -/
theorem take_deliver (h : H.FineRule I Q) (hI : I [] s) (hb : (H.get s).InBody) {n : Nat}
    {c : HttpConnection} (ht : (H.get s).Takes n c) :
    H.Next I Q (Delivered c) (H.deliver ((H.get s).buffer.take n) (H.set c s)) := by
  have hd := h.deliver (h.take n hI hb ht) (by rw [Port.get_set]; exact ht.inBody hb)
  rwa [Port.get_set] at hd

/-! ## A body of known length -/

/-- A loop over a body of known length ends with all of it or with nothing left to read. -/
theorem consumeSized (h : H.FineRule I Q) : ∀ (n : Nat) {s : σ}, I [] s → (H.get s).InBody →
    (H.get s).chunked = false → (H.get s).buffer.length ≤ n →
    H.Next I Q (fun c => c.chunked = false ∧
      ((c.bodyReceived : Int) ≥ c.contentLength ∨ c.buffer = [])) (H.consumeSized n s)
  | 0, _, hI, hb, hc, hn =>
    ⟨hI, hb, hc, .inr (List.length_eq_zero_iff.1 (Nat.le_zero.1 hn))⟩
  | n + 1, s, hI, hb, hc, hn => by
    unfold Host.consumeSized
    simp only
    split
    · rename_i hmore
      have hle := hmore.1
      have hd := h.take_deliver hI hb (n := min ((H.get s).contentLength -
        (H.get s).bodyReceived).toNat (H.get s).buffer.length)
        (.sized hc (by omega) (Nat.min_le_right _ _))
      unfold Port.modify
      generalize H.deliver _ _ = r at hd
      obtain ⟨ok, s'⟩ := r
      cases ok
      · exact hd
      · obtain ⟨hI', hb', body, received, heq⟩ := hd
        have hlen : (H.get s').buffer.length ≤ n := by
          have hpos := List.length_pos_of_ne_nil hmore.2
          rw [heq]
          simp only [List.length_drop]
          omega
        exact consumeSized h n hI' hb' (by rw [heq]; exact hc) hlen
    · rename_i hdone
      refine ⟨hI, hb, hc, ?_⟩
      by_cases hbuf : (H.get s).buffer = []
      · exact .inr hbuf
      · exact .inl (Int.not_lt.1 fun hlt => hdone ⟨hlt, hbuf⟩)

/-! ## A turn of the chunk decoder -/

/-- A line is taken off the trailer, or ends it. -/
theorem split_trailerTurn (h : H.FineRule I Q) (hI : I [] s) (hb : (H.get s).InBody)
    (hch : (H.get s).chunked = true) (hcs : (H.get s).chunkState = .chunkTrailer) :
    H.SplitTurn I Q (Turned (H.get s)) (H.chunkTurn s) (H.mute.chunkTurn s) := by
  unfold Host.chunkTurn
  simp only [hcs]
  rcases heol : Lib.indexOf crlf (H.get s).buffer with - | eol
  · exact .inl ⟨rfl, h.stop hI (.trailer hb hch hcs heol)⟩
  · simp only [Port.get_modify, Port.modify_modify]
    split
    · rename_i hlong
      exact .inl ⟨rfl, h.refuse hI hb hch (.longTrailer hcs heol hlong)⟩
    · rename_i hfit
      split
      · rename_i hzero
        subst hzero
        have hm := HttpConnection.Move.last hcs heol (Nat.le_of_not_lt hfit)
        refine .inr ⟨rfl, rfl, split_finishBody (h.move hI hb hch hm) ?_ ?_⟩
        · rw [Port.get_modify]
          exact hm.inBody hb
        · rw [Port.get_modify]
          exact ⟨fun _ => rfl, fun hf => absurd (hch.symm.trans hf) (by decide)⟩
      · rename_i hne
        have hm := HttpConnection.Move.trailer hcs heol hne (Nat.le_of_not_lt hfit)
        refine .inl ⟨rfl, h.move hI hb hch hm, ?_, ?_, ?_⟩
        · rw [Port.get_modify]
          exact hm.inBody hb
        · rw [Port.get_modify]
        · rw [Port.get_modify]
          exact HttpConnection.turnsLeft_line heol rfl

theorem sizeTurn (h : H.FineRule I Q) (hI : I [] s) (hb : (H.get s).InBody)
    (hch : (H.get s).chunked = true) (hcs : (H.get s).chunkState = .chunkSize) :
    H.Next I Q (Turned (H.get s)) (H.chunkTurn s) := by
  unfold Host.chunkTurn
  simp only [hcs]
  rcases heol : Lib.indexOf crlf (H.get s).buffer with - | eol
  · simp only
    split
    · rename_i hlong
      have hr := h.refuse hI hb hch (.longSize hcs heol hlong)
      rwa [Port.set_get] at hr
    · rename_i hlen
      exact h.stop hI (.size hb hch hcs heol (Nat.le_of_not_lt hlen))
  · simp only
    rcases hsize : Host.sizeOfLine ((H.get s).buffer.take eol) with - | n
    · refine h.refuse hI hb hch (.size hcs heol fun m hm => ?_)
      cases hsize.symm.trans hm
    · simp only
      split
      · rename_i hneg
        refine h.refuse hI hb hch (.size hcs heol fun m hm => ?_)
        have hnm := Option.some.inj (hsize.symm.trans hm)
        omega
      · rename_i hpos
        obtain ⟨m, rfl⟩ := Int.eq_ofNat_of_zero_le (Int.not_lt.1 hpos)
        have hm := HttpConnection.Move.size hcs heol hsize
        have hset : H.modify (fun c => { c with
            chunkRemaining := (m : Int).toNat
            chunkState := if (m : Int) = 0 then .chunkTrailer else .chunkData })
            (H.modify (fun c => { c with buffer := c.buffer.drop (eol + 2) }) s) =
            H.set { H.get s with
              buffer := (H.get s).buffer.drop (eol + 2)
              chunkRemaining := m
              chunkState := if m = 0 then .chunkTrailer else .chunkData } s := by
          rw [Port.modify_modify]
          simp only [Port.modify, Int.toNat_natCast, Int.natCast_eq_zero]
        rw [hset]
        refine ⟨h.move hI hb hch hm, ?_, ?_, ?_⟩
        · rw [Port.get_set]
          exact hm.inBody hb
        · rw [Port.get_set]
        · rw [Port.get_set]
          exact HttpConnection.turnsLeft_line heol rfl

theorem dataTurn (h : H.FineRule I Q) (hI : I [] s) (hb : (H.get s).InBody)
    (hch : (H.get s).chunked = true) (hcs : (H.get s).chunkState = .chunkData) :
    H.Next I Q (Turned (H.get s)) (H.chunkTurn s) := by
  unfold Host.chunkTurn
  simp only [hcs]
  split
  · rename_i hempty
    exact h.stop hI (.data hb hch hcs hempty)
  · rename_i hmore
    have hpos := List.length_pos_of_ne_nil hmore
    have hd := h.take_deliver hI hb (n := min (H.get s).chunkRemaining (H.get s).buffer.length)
      (.chunk hch hcs (Nat.min_le_left _ _) (Nat.min_le_right _ _))
    unfold Port.modify
    generalize H.deliver _ _ = r at hd
    obtain ⟨ok, s'⟩ := r
    cases ok
    · exact hd
    · obtain ⟨hI₂, hb₂, body, received, heq⟩ := hd
      have hch₂ : (H.get s').chunked = true := by
        rw [heq]
        exact hch
      have hcs₂ : (H.get s').chunkState = .chunkData := by
        rw [heq]
        exact hcs
      simp only [if_true]
      split
      · rename_i hzero
        have hm := HttpConnection.Move.dataEnd hcs₂ hzero
        refine ⟨h.move hI₂ hb₂ hch₂ hm, ?_, ?_, ?_⟩
        · rw [Port.get_set]
          exact hm.inBody hb₂
        · rw [Port.get_set]
          exact hch₂.trans hch.symm
        · rw [Port.get_set, heq]
          simp only [HttpConnection.turnsLeft, hcs, List.length_drop, reduceCtorEq, if_true,
            if_false]
          omega
      · rename_i hleft
        refine ⟨hI₂, hb₂, hch₂.trans hch.symm, ?_⟩
        rw [heq] at hleft ⊢
        simp only [HttpConnection.turnsLeft, hcs, List.length_drop, if_true] at hleft ⊢
        omega

theorem endingTurn (h : H.FineRule I Q) (hI : I [] s) (hb : (H.get s).InBody)
    (hch : (H.get s).chunked = true) (hcs : (H.get s).chunkState = .chunkCrlf) :
    H.Next I Q (Turned (H.get s)) (H.chunkTurn s) := by
  unfold Host.chunkTurn
  simp only [hcs]
  split
  · rename_i hlen
    exact h.stop hI (.ending hb hch hcs hlen)
  · rename_i hlen
    have hm := HttpConnection.Move.ending hcs (Nat.le_of_not_lt hlen)
    refine ⟨h.move hI hb hch hm, ?_, ?_, ?_⟩
    · rw [Port.get_modify]
      exact hm.inBody hb
    · rw [Port.get_modify]
    · rw [Port.get_modify]
      simp only [HttpConnection.turnsLeft, hcs, List.length_drop, reduceCtorEq, if_false]
      omega

theorem split_chunkTurn (h : H.FineRule I Q) (hI : I [] s) (hb : (H.get s).InBody)
    (hch : (H.get s).chunked = true) :
    H.SplitTurn I Q (Turned (H.get s)) (H.chunkTurn s) (H.mute.chunkTurn s) := by
  by_cases htrailer : (H.get s).chunkState = .chunkTrailer
  · exact h.split_trailerTurn hI hb hch htrailer
  · refine .inl ⟨(chunkTurn_mute htrailer).symm, ?_⟩
    cases hcs : (H.get s).chunkState with
    | chunkSize => exact h.sizeTurn hI hb hch hcs
    | chunkData => exact h.dataTurn hI hb hch hcs
    | chunkCrlf => exact h.endingTurn hI hb hch hcs
    | chunkTrailer => exact absurd hcs htrailer
    | chunkDone =>
      unfold Host.chunkTurn
      simp only [hcs]
      exact h.stop hI (.done hb hch hcs)

/-! ## Segments -/

theorem split_consumeChunkedBody (h : H.FineRule I Q) : ∀ (n : Nat) {s : σ}, I [] s →
    (H.get s).InBody → (H.get s).chunked = true → (H.get s).turnsLeft < n →
    H.Split I Q (H.consumeChunkedBody n s) (H.mute.consumeChunkedBody n s)
  | 0, _, _, _, _, hn => absurd hn (Nat.not_lt_zero _)
  | n + 1, s, hI, hb, hch, hn => by
    have ht := h.split_chunkTurn hI hb hch
    unfold Host.consumeChunkedBody
    generalize H.mute.chunkTurn s = r at ht
    generalize H.chunkTurn s = t at ht
    obtain ⟨ok, s₁⟩ := t
    obtain ⟨ok', s₂⟩ := r
    rcases ht with ⟨heq, hnext⟩ | ⟨hok, hok', hend⟩
    · cases heq
      cases ok
      · exact .inl ⟨rfl, hnext⟩
      · obtain ⟨hI', hb', hch', hlt⟩ := hnext
        exact split_consumeChunkedBody h n hI' hb' (hch'.trans hch)
          (Nat.lt_of_lt_of_le hlt (Nat.le_of_lt_succ hn))
    · cases hok
      cases hok'
      exact hend

theorem split_consumeBody (h : H.FineRule I Q) (hI : I [] s) (hb : (H.get s).InBody) :
    H.Split I Q (H.consumeBody s) (H.mute.consumeBody s) := by
  unfold Host.consumeBody
  simp only [hb.1, hb.2, ne_eq, not_true_eq_false, Bool.false_eq_true, or_self, if_false]
  split
  · rename_i hch
    refine h.split_consumeChunkedBody _ hI hb hch ?_
    unfold HttpConnection.turnsLeft
    split <;> omega
  · rename_i hch
    have hc := h.consumeSized (H.get s).buffer.length hI hb (Bool.eq_false_iff.2 hch) le_rfl
    rw [consumeSized_mute]
    generalize H.consumeSized _ s = r at hc
    obtain ⟨ok, s'⟩ := r
    cases ok
    · simp only [Bool.false_eq_true, false_and, if_false]
      exact .inl ⟨rfl, hc⟩
    · obtain ⟨hI', hb', hch', hend⟩ := hc
      simp only [true_and]
      split
      · rename_i hl
        exact split_finishBody hI' hb' ⟨fun hf => absurd (hch'.symm.trans hf) (by decide), fun _ => hl⟩
      · rename_i hl
        exact .inl ⟨rfl, h.stop hI' (.sized hb' hch' (Int.not_le.1 hl) (hend.resolve_left hl))⟩

theorem split_beginBody (h : H.FineRule I Q) {c : HttpConnection} (hI : I [] s)
    (hc : (H.get s).HeadRead { c with state := .readingBody }) :
    H.Split I Q (H.beginBody (H.set c s)) (H.mute.beginBody (H.set c s)) := by
  unfold Host.beginBody
  simp only [Port.modify, Port.get_set, Port.set_set]
  split
  · rename_i hm
    exact .inl ⟨rfl, h.preflight hI hc hm⟩
  · rename_i hm
    obtain ⟨hQ, hI'⟩ := h.headers hI hc hm
    split
    · rename_i hb
      exact .inl ⟨rfl, hQ hb⟩
    · rename_i hb
      obtain ⟨hI', hcomp⟩ := hI' (not_not.1 hb)
      split
      · refine h.split_consumeBody (h.goAhead hI' ⟨not_not.1 hb, hcomp⟩) ?_
        rw [Port.get_set]
        exact ⟨not_not.1 hb, hcomp⟩
      · exact h.split_consumeBody hI' ⟨not_not.1 hb, hcomp⟩

/-- A segment that is read: from `I` of the connection with its segment to `Q`, or to the handler. -/
theorem onReadyRead (h : H.FineRule I Q) (data : QByteArray) (hst : (H.get s).state ≠ .responded)
    (hcomp : (H.get s).bodyComplete = false) (hI : I [] (H.modify (HttpConnection.feed data) s)) :
    H.Split I Q (H.onReadyRead data s) (H.mute.onReadyRead data s) := by
  have hopen : ¬ ((H.get (H.modify (fun c => { c with
      idleTimer := some (c.now + c.idleInterval) }) s)).state = .responded ∨
      (H.get (H.modify (fun c => { c with
        idleTimer := some (c.now + c.idleInterval) }) s)).bodyComplete = true) := by
    rw [Port.get_modify]
    exact not_or.2 ⟨hst, by rw [hcomp]; decide⟩
  have hfed : (H.get (H.modify (HttpConnection.feed data) s)).state ≠ .responded ∧
      (H.get (H.modify (HttpConnection.feed data) s)).bodyComplete = false := by
    rw [Port.get_modify]
    exact ⟨hst, hcomp⟩
  unfold Host.onReadyRead
  simp only
  rw [if_neg hopen, if_neg hopen, modify_feed]
  generalize H.modify (HttpConnection.feed data) s = s₁ at hI hfed ⊢
  split
  · rename_i hs
    rcases hfin : Lib.indexOf (crlf ++ crlf) (H.get s₁).buffer with - | fin
    · simp only
      split
      · rename_i hlen
        exact .inl ⟨rfl, h.longHead hI hs hfin hlen⟩
      · rename_i hlen
        exact .inl ⟨rfl, h.stop hI (.head hs hfin (Nat.le_of_not_lt hlen))⟩
    · simp only [Port.parseHead, Port.modify, Port.get_set, Port.set_set]
      rcases hr : Port.readHead ((H.get s₁).buffer.take fin)
        { H.get s₁ with buffer := (H.get s₁).buffer.drop (fin + 4) } with ⟨c, ok⟩
      cases ok
      · exact .inl ⟨rfl, h.badHead hI ⟨hs, fin, hfin, hr⟩⟩
      · exact h.split_beginBody hI ⟨hs, fin, c, hfin, hr, rfl⟩
  · rename_i hs
    refine h.split_consumeBody hI ⟨?_, hfed.2⟩
    cases hst : (H.get s₁).state with
    | readingHeaders => exact absurd hst hs
    | readingBody => rfl
    | responded => exact absurd hst hfed.1

end FineRule

end Host

end LocalSend
