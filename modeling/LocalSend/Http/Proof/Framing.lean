import LocalSend.Http.Framing
import LocalSend.Http.Proof.Rule
import LocalSend.Http.Wire

/-!
# The decoder keeps to the framing

What a connection has taken off its stream, scanned, is where its decoder is (`Reads`), for every
judge that takes nothing for a size or a length that the class does not take for the same
(`Judge.Sound`), as long as the class overlooks no fault (`Judge.Misreads`). One lemma for each
thing the decoder does; `Host.Rule.tracked` puts them together into a rule, over any rule of the
surroundings.
-/

set_option autoImplicit false

namespace LocalSend

/-! ## Scanning -/

namespace Judge

variable [Qt] {J : Judge} {a l : QByteArray}

theorem scan_append (a l : QByteArray) : J.scan (a ++ l) = l.foldl J.step (J.scan a) :=
  List.foldl_append

/-- What is complete, faulty or without a body stays so. -/
theorem foldl_over (x : Scan) (h : x.phase = .complete ∨ x.phase = .bodiless ∨
    ∃ f, x.phase = .faulty f) : l.foldl J.step x = x := by
  induction l with
  | nil => rfl
  | cons b l ih =>
    have hstep : J.step x b = x := by
      unfold step
      rcases h with h | h | ⟨f, h⟩ <;> rw [h]
    rw [List.foldl_cons, hstep, ih]

theorem faulty_append {f : Fault} (h : (J.scan a).phase = .faulty f) (l : QByteArray) :
    (J.scan (a ++ l)).phase = .faulty f := by
  rw [scan_append, foldl_over _ (.inr (.inr ⟨f, h⟩)), h]

theorem complete_append (h : (J.scan a).phase = .complete) (l : QByteArray) :
    J.scan (a ++ l) = J.scan a := by
  rw [scan_append, foldl_over _ (.inl h)]

section
variable {body : QByteArray}

/-- A chunk-size line that is not all there. -/
theorem foldl_size (h : Lib.indexOf crlf l = none) :
    l.foldl J.step ⟨.size [], body⟩ = ⟨.size l, body⟩ := by
  refine Lib.foldl_collect (fun seen => Scan.mk (.size seen) body) (fun seen x hx => ?_) h
  simp only [step, if_neg hx]

theorem foldl_sizeLine {eol : Nat} (h : Lib.indexOf crlf l = some eol) :
    (l.take (eol + 2)).foldl J.step ⟨.size [], body⟩ = ⟨J.afterSize (l.take eol), body⟩ := by
  refine Lib.foldl_collect_done (d := crlf) (fun seen => Scan.mk (.size seen) body)
    (fun line => Scan.mk (J.afterSize line) body) (by decide) (fun seen x hx => ?_)
    (fun seen x hx => ?_) h
  · simp only [step, if_neg hx]
  · simp only [step, if_pos hx]
    rfl

theorem foldl_trailerLine {eol : Nat} (h : Lib.indexOf crlf l = some eol) :
    (l.take (eol + 2)).foldl J.step ⟨.trailer [], body⟩ =
      ⟨if eol = 0 then .complete else .trailer [], body⟩ := by
  have hle := Lib.indexOf_le h
  have hdone := Lib.foldl_collect_done (d := crlf) (f := J.step)
    (fun seen => Scan.mk (.trailer seen) body)
    (fun line => Scan.mk (if line = [] then .complete else .trailer []) body) (by decide)
    (fun seen x hx => ?_) (fun seen x hx => ?_) h
  · rw [show crlf.length = 2 from rfl] at hdone hle
    rw [hdone]
    have hnil : l.take eol = [] ↔ eol = 0 := by
      rw [← List.length_eq_zero_iff, List.length_take]
      omega
    simp only [hnil]
  · simp only [step, if_neg hx]
  · obtain ⟨line, hline⟩ := hx
    have hnil : seen ++ [x] = crlf ↔ line = [] := by
      rw [← hline]
      simp
    simp only [step, ← hline, List.suffix_append, if_true, List.length_append, Nat.add_sub_cancel,
      List.take_left]
    rw [hline]
    simp only [hnil]

/-- Trailers are never at fault. -/
theorem foldl_trailer_phase (line : QByteArray) : ∀ f,
    (l.foldl J.step ⟨.trailer line, body⟩).phase ≠ .faulty f := by
  induction l generalizing line with
  | nil => exact nofun
  | cons b l ih =>
    intro f
    rw [List.foldl_cons]
    by_cases hx : crlf <:+ line ++ [b]
    · by_cases hlast : line ++ [b] = crlf
      · simp only [step, if_pos hx, if_pos hlast]
        rw [foldl_over _ (.inl rfl)]
        exact nofun
      · simp only [step, if_pos hx, if_neg hlast]
        exact ih [] f
    · simp only [step, if_neg hx]
      exact ih _ f

theorem foldl_data {left : Nat} (hl : l.length ≤ left) :
    l.foldl J.step ⟨if left = 0 then .ending [] else .data left, body⟩ =
      ⟨if left - l.length = 0 then .ending [] else .data (left - l.length), body ++ l⟩ := by
  induction l generalizing left body with
  | nil => simp
  | cons b l ih =>
    rw [List.length_cons] at hl ⊢
    have hne : left ≠ 0 := by omega
    have hstep : J.step ⟨.data left, body⟩ b =
        ⟨if left - 1 = 0 then .ending [] else .data (left - 1), body ++ [b]⟩ := by
      have hle : left ≤ 1 ↔ left - 1 = 0 := by omega
      simp only [step, hle]
    have hleft : left - 1 - l.length = left - (l.length + 1) := by omega
    rw [if_neg hne, List.foldl_cons, hstep, ih (by omega), List.append_assoc, hleft]
    rfl

theorem foldl_sized {left : Nat} (hl : l.length ≤ left) :
    l.foldl J.step ⟨if left = 0 then .complete else .sized left, body⟩ =
      ⟨if left - l.length = 0 then .complete else .sized (left - l.length), body ++ l⟩ := by
  induction l generalizing left body with
  | nil => simp
  | cons b l ih =>
    rw [List.length_cons] at hl ⊢
    have hne : left ≠ 0 := by omega
    have hstep : J.step ⟨.sized left, body⟩ b =
        ⟨if left - 1 = 0 then .complete else .sized (left - 1), body ++ [b]⟩ := by
      have hle : left ≤ 1 ↔ left - 1 = 0 := by omega
      simp only [step, hle]
    have hleft : left - 1 - l.length = left - (l.length + 1) := by omega
    rw [if_neg hne, List.foldl_cons, hstep, ih (by omega), List.append_assoc, hleft]
    rfl

theorem foldl_ending {x y : UInt8} :
    [x, y].foldl J.step ⟨.ending [], body⟩ =
      ⟨if J.ending [x, y] then .size [] else .faulty (.ending [x, y]), body⟩ := rfl

end

/-- A head that is not all there. -/
theorem scan_head (h : Lib.indexOf (crlf ++ crlf) l = none) : J.scan l = ⟨.head l, []⟩ := by
  refine Lib.foldl_collect (fun seen => Scan.mk (.head seen) []) (fun seen x hx => ?_) h
  simp only [step, if_neg hx]

theorem scan_afterHead {fin : Nat} (h : Lib.indexOf (crlf ++ crlf) l = some fin) :
    J.scan (l.take (fin + 4)) = ⟨J.afterHead (l.take fin), []⟩ := by
  refine Lib.foldl_collect_done (d := crlf ++ crlf) (fun seen => Scan.mk (.head seen) [])
    (fun head => Scan.mk (J.afterHead head) []) (by decide) (fun seen x hx => ?_)
    (fun seen x hx => ?_) h
  · simp only [step, if_neg hx]
  · simp only [step, if_pos hx]
    rfl

/-! ## Judges -/

omit [Qt] in
theorem lenient_size {line : QByteArray} {n : Nat} :
    lenient.size line = some n ↔ Host.sizeOfLine line = some (n : Int) := by
  change (Host.sizeOfLine line).bind Int.toNat? = some n ↔ _
  rcases Host.sizeOfLine line with - | m | m
  · exact ⟨nofun, nofun⟩
  · exact ⟨fun h => congrArg _ (congrArg _ (Option.some.inj h)),
      fun h => congrArg _ (Int.ofNat.inj (Option.some.inj h))⟩
  · exact ⟨nofun, nofun⟩

/-- What the judge takes for a size or a length, the class takes for the same. -/
structure Sound (J : Judge) : Prop where
  size : ∀ {line n}, J.size line = some n → Host.sizeOfLine line = some (n : Int)
  length : ∀ {value n}, J.length value = some n →
    ((QByteArray.toLongLong 10 value).getD 0).toNat = n

omit [Qt] in
theorem lenient_sound : lenient.Sound where
  size := lenient_size.1
  length := Option.some.inj

omit [Qt] in
theorem number_eq {base n : Nat} {digits : QByteArray} (h : number base digits = some n) :
    digits ≠ [] ∧ digits.all (QByteArray.isDigit base) = true ∧
      QByteArray.digitsValue base 0 digits < 2 ^ 63 ∧ QByteArray.digitsValue base 0 digits = n := by
  unfold number at h
  split at h
  · rename_i hdigits
    exact ⟨hdigits.1, hdigits.2.1, hdigits.2.2, Option.some.inj h⟩
  · cases h

omit [Qt] in
theorem strict_sound : strict.Sound where
  size := by
    intro line n h
    obtain ⟨hne, hhex, hlt, rfl⟩ := number_eq h
    have hext : ∀ rest, line.dropWhile (· ≠ 59) = rest → rest = [] ∨ rest.head? = some 59 := by
      intro rest hrest
      have hb := List.head?_dropWhile_not (fun b : UInt8 => decide (b ≠ 59)) line
      rw [hrest] at hb
      cases rest with
      | nil => exact .inl rfl
      | cons b rest =>
        right
        simpa using hb
    have hline := Wire.sizeOfLine_digits hne hhex (hext _ rfl) hlt
    rwa [List.takeWhile_append_dropWhile] at hline
  length := by
    intro value n h
    obtain ⟨hne, hdecimal, hlt, rfl⟩ := number_eq h
    rw [Wire.toLongLong_decimal hne hdecimal hlt]
    rfl

/-- The class reads over a fault. -/
def Misreads (J : Judge) (a : QByteArray) : Prop :=
  ∃ f, (J.scan a).phase = .faulty f ∧ f.overlooked = true

theorem Misreads.append (h : J.Misreads a) (l : QByteArray) : J.Misreads (a ++ l) := by
  obtain ⟨f, hf, hover⟩ := h
  exact ⟨f, faulty_append hf l, hover⟩

omit [Qt] in
/-- What follows a size line is at fault only if the line is. -/
theorem afterSize_faulty {line : QByteArray} {f : Fault} (h : J.afterSize line = .faulty f) :
    J.size line = none ∧ f = .sizeLine line := by
  unfold afterSize at h
  split at h
  · rename_i hsize
    exact ⟨hsize, (Phase.faulty.inj h).symm⟩
  · cases h
  · cases h

theorem afterHead_lenient (head : QByteArray) (f : Fault) : lenient.afterHead head ≠ .faulty f := by
  unfold afterHead
  split
  · exact nofun
  split
  · exact nofun
  split
  · exact nofun
  split
  · exact nofun
  split
  · rename_i hlength
    cases hlength
  · exact nofun
  · exact nofun

/-- The judge that takes what the class takes overlooks nothing. -/
theorem not_misreads_lenient (a : QByteArray) : ¬ lenient.Misreads a := by
  have hfault : ∀ f, (lenient.scan a).phase = .faulty f → f.overlooked = false := by
    induction a using List.reverseRecOn with
    | nil => exact nofun
    | append_singleton a b ih =>
      intro f hf
      rw [scan_append, List.foldl_cons, List.foldl_nil] at hf
      unfold step at hf
      cases hphase : (lenient.scan a).phase with
      | head seen =>
        simp only [hphase] at hf
        split at hf
        · exact absurd hf (afterHead_lenient _ f)
        · cases hf
      | size line =>
        simp only [hphase] at hf
        split at hf
        · obtain ⟨hnone, rfl⟩ := afterSize_faulty hf
          simp only [Fault.overlooked, hnone, Option.isSome_none]
        · cases hf
      | data left =>
        simp only [hphase] at hf
        split at hf <;> cases hf
      | ending seen =>
        simp only [hphase] at hf
        split at hf
        · cases hf
        · split at hf
          · cases hf
          · rename_i hno
            exact absurd rfl hno
      | trailer line =>
        simp only [hphase] at hf
        split at hf
        · split at hf <;> cases hf
        · cases hf
      | sized left =>
        simp only [hphase] at hf
        split at hf <;> cases hf
      | complete =>
        simp only [hphase] at hf
        cases hf
      | faulty g =>
        simp only [hphase] at hf
        cases hf
        exact ih _ hphase
      | bodiless =>
        simp only [hphase] at hf
        cases hf
  rintro ⟨f, hf, hover⟩
  exact absurd ((hfault f hf).symm.trans hover) (by decide)

end Judge

/-! ## The decoder -/

namespace HttpConnection

/-- Where the decoder is, by its fields, when this much of a body has come. -/
def phase (c : HttpConnection) (received : Nat) : Phase :=
  if c.chunked then
    match c.chunkState with
    | .chunkSize => .size []
    | .chunkData => if c.chunkRemaining = 0 then .ending [] else .data c.chunkRemaining
    | .chunkCrlf => .ending []
    | .chunkTrailer => .trailer []
    | .chunkDone => .complete
  else if c.contentLength.toNat - received = 0 then .complete
  else .sized (c.contentLength.toNat - received)

/-- `a` is what the decoder has taken off the stream: `d` was delivered, `data` is in hand. -/
structure Reads [Qt] (c : HttpConnection) (J : Judge) (a d data : QByteArray) : Prop where
  received : d.length = c.bodyReceived
  scan : J.scan a = ⟨c.phase (c.bodyReceived + data.length), d ++ data⟩

/-- Nothing of a request has been read. -/
structure Fresh (c : HttpConnection) : Prop where
  headers : c.headers = ∅
  bodyReceived : c.bodyReceived = 0
  chunkState : c.chunkState = .chunkSize

/-- What the decoder works on is as it was. -/
structure SameDecoder (c c' : HttpConnection) : Prop where
  buffer : c'.buffer = c.buffer
  bodyReceived : c'.bodyReceived = c.bodyReceived
  chunked : c'.chunked = c.chunked
  chunkState : c'.chunkState = c.chunkState
  chunkRemaining : c'.chunkRemaining = c.chunkRemaining
  contentLength : c'.contentLength = c.contentLength

theorem SameDecoder.phase {c c' : HttpConnection} (h : c.SameDecoder c') (received : Nat) :
    c'.phase received = c.phase received := by
  unfold HttpConnection.phase
  rw [h.chunked, h.chunkState, h.chunkRemaining, h.contentLength]

section
variable {c : HttpConnection}

theorem phase_size (hc : c.chunked = true) (hcs : c.chunkState = .chunkSize) (n : Nat) :
    c.phase n = .size [] := by
  simp only [phase, hc, hcs, if_true]

theorem phase_data (hc : c.chunked = true) (hcs : c.chunkState = .chunkData) (n : Nat) :
    c.phase n = if c.chunkRemaining = 0 then .ending [] else .data c.chunkRemaining := by
  simp only [phase, hc, hcs, if_true]

theorem phase_ending (hc : c.chunked = true) (hcs : c.chunkState = .chunkCrlf) (n : Nat) :
    c.phase n = .ending [] := by
  simp only [phase, hc, hcs, if_true]

theorem phase_trailer (hc : c.chunked = true) (hcs : c.chunkState = .chunkTrailer) (n : Nat) :
    c.phase n = .trailer [] := by
  simp only [phase, hc, hcs, if_true]

theorem phase_done (hc : c.chunked = true) (hcs : c.chunkState = .chunkDone) (n : Nat) :
    c.phase n = .complete := by
  simp only [phase, hc, hcs, if_true]

theorem phase_sized (hc : c.chunked = false) (n : Nat) :
    c.phase n = if c.contentLength.toNat - n = 0 then .complete
      else .sized (c.contentLength.toNat - n) := by
  simp only [phase, hc, Bool.false_eq_true, if_false]

end

section
variable [Qt] {J : Judge} {c c' : HttpConnection} {a d data : QByteArray}

theorem Reads.congr (h : c.Reads J a d data) (hs : c.SameDecoder c') : c'.Reads J a d data where
  received := h.received.trans hs.bodyReceived.symm
  scan := by
    rw [hs.phase, hs.bodyReceived]
    exact h.scan

theorem Reads.at_phase {x : Phase} (h : c.Reads J a d [])
    (hx : c.phase (c.bodyReceived + 0) = x) : J.scan a = ⟨x, d⟩ := by
  have hscan := h.scan
  rwa [List.length_nil, hx, List.append_nil] at hscan

theorem Reads.of_scan {x : Phase} (hd : d.length = c.bodyReceived) (hscan : J.scan a = ⟨x, d⟩)
    (hx : c.phase (c.bodyReceived + 0) = x) : c.Reads J a d [] where
  received := hd
  scan := by rw [hscan, List.length_nil, hx, List.append_nil]

/-- What is in hand is delivered. -/
theorem Reads.deliver (h : c.Reads J a d data) (body : QByteArray) :
    Reads { c with
      body := body
      bodyReceived := c.bodyReceived + data.length } J a (d ++ data) [] where
  received := by rw [List.length_append, h.received]
  scan := by
    rw [h.scan, List.append_nil]
    rfl

/-- What the decoder does with the framing is what the scan does with it, or a fault goes by. -/
theorem Move.reads (hJ : J.Sound) (hc : c.chunked = true) (hm : c.Move c') (h : c.Reads J a d []) :
    ∃ l, c.buffer = l ++ c'.buffer ∧ (J.Misreads (a ++ l) ∨ c'.Reads J (a ++ l) d []) := by
  have hd : d.length = c.bodyReceived := h.received
  have hc' : c'.chunked = true := hm.chunked.trans hc
  cases hm with
  | @size eol n hcs heol hline =>
    refine ⟨c.buffer.take (eol + 2), (List.take_append_drop _ _).symm, ?_⟩
    have hscan : J.scan (a ++ c.buffer.take (eol + 2)) = ⟨J.afterSize (c.buffer.take eol), d⟩ := by
      rw [Judge.scan_append, h.at_phase (phase_size hc hcs _), Judge.foldl_sizeLine heol]
    cases hsize : J.size (c.buffer.take eol) with
    | none =>
      refine .inl ⟨.sizeLine (c.buffer.take eol), ?_, ?_⟩
      · simp only [hscan, Judge.afterSize, hsize]
      · simp only [Fault.overlooked, Judge.lenient_size.2 hline, Option.isSome_some]
    | some m =>
      obtain rfl : n = m := by
        have heq := Option.some.inj (hline.symm.trans (hJ.size hsize))
        omega
      cases n with
      | zero =>
        refine .inr (.of_scan hd ?_ (phase_trailer hc' rfl _))
        simp only [hscan, Judge.afterSize, hsize]
      | succ n =>
        refine .inr (.of_scan hd ?_ (phase_data hc' rfl _))
        simp only [hscan, Judge.afterSize, hsize, Nat.succ_ne_zero, if_false]
  | dataEnd hcs hzero =>
    refine ⟨[], rfl, .inr (.of_scan hd ?_ (phase_ending hc' rfl _))⟩
    rw [List.append_nil, h.at_phase (phase_data hc hcs _), if_pos hzero]
  | ending hcs hlen =>
    refine ⟨c.buffer.take 2, (List.take_append_drop _ _).symm, ?_⟩
    obtain ⟨x, y, hxy⟩ : ∃ x y, c.buffer.take 2 = [x, y] :=
      List.length_eq_two.1 (by rw [List.length_take, Nat.min_eq_left hlen])
    have hscan := Judge.scan_append (J := J) a [x, y]
    rw [h.at_phase (phase_ending hc hcs _), Judge.foldl_ending] at hscan
    rw [hxy]
    cases hend : J.ending [x, y] with
    | false =>
      refine .inl ⟨.ending [x, y], ?_, rfl⟩
      rw [hscan, hend]
      rfl
    | true =>
      refine .inr (.of_scan hd ?_ (phase_size hc' rfl _))
      rw [hscan, hend]
      rfl
  | @trailer eol hcs heol hne _ =>
    refine ⟨c.buffer.take (eol + 2), (List.take_append_drop _ _).symm,
      .inr (.of_scan hd ?_ (phase_trailer hc' hcs _))⟩
    rw [Judge.scan_append, h.at_phase (phase_trailer hc hcs _), Judge.foldl_trailerLine heol,
      if_neg hne]
  | last hcs heol _ =>
    refine ⟨c.buffer.take 2, (List.take_append_drop _ _).symm,
      .inr (.of_scan hd ?_ (phase_done hc' rfl _))⟩
    rw [Judge.scan_append, h.at_phase (phase_trailer hc hcs _), Judge.foldl_trailerLine heol,
      if_pos rfl]

theorem Takes.reads {n : Nat} (ht : c.Takes n c') (h : c.Reads J a d []) :
    c.buffer = c.buffer.take n ++ c'.buffer ∧
      c'.Reads J (a ++ c.buffer.take n) d (c.buffer.take n) := by
  have hd : d.length = c.bodyReceived := h.received
  cases ht with
  | sized hc hle hn =>
    have hlen : (c.buffer.take n).length = n := by rw [List.length_take, Nat.min_eq_left hn]
    refine ⟨(List.take_append_drop _ _).symm, hd, ?_⟩
    rw [Judge.scan_append, h.at_phase (phase_sized hc _), Judge.foldl_sized (by omega), hlen,
      Nat.add_zero, Nat.sub_sub]
    exact congrArg (Scan.mk · _) (phase_sized hc _).symm
  | chunk hc hcs hle hn =>
    have hlen : (c.buffer.take n).length = n := by rw [List.length_take, Nat.min_eq_left hn]
    refine ⟨(List.take_append_drop _ _).symm, hd, ?_⟩
    rw [Judge.scan_append, h.at_phase (phase_data hc hcs _), Judge.foldl_data (by omega), hlen]
    refine congrArg (Scan.mk · _) ?_
    simp only [phase, hc, hcs, if_true]

theorem AllRead.reads (hr : c.AllRead) (h : c.Reads J a d []) : J.scan a = ⟨.complete, d⟩ := by
  refine h.at_phase ?_
  cases hc : c.chunked with
  | true => exact phase_done hc (hr.chunked hc) _
  | false =>
    have hle := hr.sized hc
    rw [phase_sized hc, if_pos (by omega)]

/-- Where the decoder waits for more, what there is is without a fault. -/
theorem Stops.reads (hs : c.Stops) (hb : c.InBody) (h : c.Reads J a d []) (f : Fault) :
    (J.scan (a ++ c.buffer)).phase ≠ .faulty f := by
  rw [Judge.scan_append]
  cases hs with
  | head hst _ _ => exact State.noConfusion (hst.symm.trans hb.1)
  | size _ hc hcs heol _ =>
    rw [h.at_phase (phase_size hc hcs _), Judge.foldl_size heol]
    exact nofun
  | data _ hc hcs hbuf =>
    rw [h.at_phase (phase_data hc hcs _), hbuf, List.foldl_nil]
    simp only
    split <;> exact nofun
  | ending _ hc hcs hlen =>
    rw [h.at_phase (phase_ending hc hcs _)]
    rcases hbuf : c.buffer with - | ⟨x, - | ⟨y, l⟩⟩
    · exact nofun
    · exact nofun
    · rw [hbuf, List.length_cons, List.length_cons] at hlen
      omega
  | trailer _ hc hcs heol =>
    rw [h.at_phase (phase_trailer hc hcs _)]
    exact Judge.foldl_trailer_phase [] f
  | done _ hc hcs =>
    rw [h.at_phase (phase_done hc hcs _), Judge.foldl_over _ (.inl rfl)]
    exact nofun
  | sized _ hc _ hbuf =>
    rw [h.at_phase (phase_sized hc _), hbuf, List.foldl_nil]
    simp only
    split <;> exact nofun

/-- What the decoder refuses, it has not overlooked. -/
theorem Refuses.reads {status : Nat} (hJ : J.Sound) (hc : c.chunked = true)
    (hr : c.Refuses status c') (h : c.Reads J a d []) : ¬ J.Misreads (a ++ c.buffer) := by
  rintro ⟨f, hf, hover⟩
  rw [Judge.scan_append] at hf
  cases hr with
  | longSize hcs heol _ =>
    rw [h.at_phase (phase_size hc hcs _), Judge.foldl_size heol] at hf
    cases hf
  | @size eol hcs heol hline =>
    have hsize : J.size (c.buffer.take eol) = none :=
      Option.eq_none_iff_forall_ne_some.2 fun n hn => hline n (hJ.size hn)
    have hnone : Judge.lenient.size (c.buffer.take eol) = none :=
      Option.eq_none_iff_forall_ne_some.2 fun n hn => hline n (Judge.lenient_size.1 hn)
    rw [← List.take_append_drop (eol + 2) c.buffer, List.foldl_append,
      h.at_phase (phase_size hc hcs _), Judge.foldl_sizeLine heol] at hf
    simp only [Judge.afterSize, hsize] at hf
    rw [Judge.foldl_over _ (.inr (.inr ⟨_, rfl⟩))] at hf
    cases hf
    simp only [Fault.overlooked, hnone, Option.isSome_none] at hover
    cases hover
  | longTrailer hcs _ _ =>
    rw [h.at_phase (phase_trailer hc hcs _)] at hf
    exact Judge.foldl_trailer_phase [] f hf

end

end HttpConnection

end LocalSend
