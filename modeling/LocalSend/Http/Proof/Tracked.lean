import LocalSend.Http.Proof.Framing

/-!
# Reading what a stream says

`Port.Tracked J Holds b data s`: the stream `b` has come, and of a request in its body the decoder
is where the scan of what it has taken is, with `Holds` of what was delivered, unless a fault was
overlooked. `Host.Rule.tracked` adds this to any rule whose surroundings leave the decoder alone
(`Host.Follows`), and `onReadyRead_tracked` is what it says of a segment.
-/

set_option autoImplicit false

namespace LocalSend

/-! ## The head -/

namespace HttpConnection

variable [Qt] {J : Judge} {c c' : HttpConnection} {l : QByteArray}

/-- What a head says does not depend on what reads it, as long as that has no headers yet. -/
theorem readHead_fresh (hf : c.Fresh) {head rest : QByteArray} {ok : Bool}
    (h : Port.readHead head { c with buffer := rest } = (c', ok)) : ∃ c₀,
    Port.readHead head (.accepted 0 [] none) = (c₀, ok) ∧ (ok = true →
      c'.method = c₀.method ∧ c'.headers = c₀.headers ∧ c'.chunked = c₀.chunked) := by
  unfold Port.readHead at h ⊢
  split at h
  · cases h
    exact ⟨_, rfl, nofun⟩
  split at h
  · simp only [hf.headers] at h
    split at h
    · rename_i hok
      cases h
      exact ⟨_, if_pos hok, fun _ => ⟨rfl, rfl, rfl⟩⟩
    · rename_i hok
      cases h
      exact ⟨_, if_neg hok, nofun⟩
  · cases h
    exact ⟨_, rfl, nofun⟩

/-- The length of a body that is not chunked is what its Content-Length says. -/
theorem readHead_length {head : QByteArray} (h : Port.readHead head c = (c', true))
    (hc : c'.chunked = false) : c'.contentLength.toNat = ((QByteArray.toLongLong 10
      ((c'.headers.lookup (ascii "content-length")).getD [])).getD 0).toNat := by
  unfold Port.readHead at h
  split at h
  · cases h
  split at h
  swap
  · cases h
  extract_lets c₁ at h
  split at h
  extract_lets c₂ at h
  split at h
  swap
  · exact absurd (congrArg Prod.snd h) Bool.false_ne_true
  clear_value c₂
  obtain rfl := (Prod.mk.inj h).1
  have hplain := Bool.eq_false_iff.1 hc
  unfold Port.setFraming at hplain ⊢
  simp only at hplain ⊢
  rw [if_neg hplain]
  split
  · rename_i n hn
    rw [hn, Option.getD_some]
    split <;> omega
  · rename_i hn
    rw [hn]
    rfl

/-- The scan is where a head leaves the decoder, or the length is at fault. -/
theorem HeadRead.reads (hJ : J.Sound) (hf : c.Fresh) (h : c.HeadRead c')
    (hm : c'.method ≠ str "OPTIONS") :
    ∃ l, c.buffer = l ++ c'.buffer ∧ (J.Misreads l ∨ c'.Reads J l [] []) := by
  obtain ⟨-, fin, c₁, hfin, hr, rfl⟩ := h
  obtain ⟨_, _, _, _, _, _, _, heq⟩ := Host.readHead_eq (c.buffer.take fin)
    { c with buffer := c.buffer.drop (fin + 4) }
  rw [hr] at heq
  have heq : c₁ = _ := heq
  have hbuf : c₁.buffer = c.buffer.drop (fin + 4) := by rw [heq]
  have hreceived : c₁.bodyReceived = 0 := by
    rw [heq]
    exact hf.bodyReceived
  have hstate : c₁.chunkState = .chunkSize := by
    rw [heq]
    exact hf.chunkState
  refine ⟨c.buffer.take (fin + 4), ?_, ?_⟩
  · change c.buffer = _ ++ c₁.buffer
    rw [hbuf, List.take_append_drop]
  have hscan := Judge.scan_afterHead (J := J) hfin
  obtain ⟨c₀, hblank, hsame⟩ := readHead_fresh hf hr
  obtain ⟨hmethod, hheaders, hchunked⟩ := hsame rfl
  have hmethod : c₀.method ≠ str "OPTIONS" := hmethod ▸ hm
  unfold Judge.afterHead at hscan
  rw [hblank] at hscan
  simp only at hscan
  rw [if_neg hmethod, ← hheaders, ← hchunked] at hscan
  obtain ⟨chunked, hc⟩ : ∃ chunked, c₁.chunked = chunked := ⟨_, rfl⟩
  cases chunked with
  | true =>
    rw [hc, if_pos rfl] at hscan
    exact .inr (.of_scan hreceived.symm hscan (phase_size hc hstate _))
  | false =>
    rw [hc] at hscan
    simp only [Bool.false_eq_true, if_false] at hscan
    have hlength := readHead_length hr hc
    have hphase : ∀ n, c₁.contentLength.toNat = n → HttpConnection.phase
        { c₁ with state := .readingBody } (c₁.bodyReceived + 0) =
        if n = 0 then .complete else .sized n := by
      rintro n rfl
      refine (phase_sized hc _).trans ?_
      rw [hreceived]
      rfl
    cases hlookup : c₁.headers.lookup (ascii "content-length") with
    | none =>
      rw [hlookup] at hscan hlength
      exact .inr (.of_scan hreceived.symm hscan (hphase 0 hlength))
    | some value =>
      rw [hlookup] at hlength
      cases hvalue : J.length value with
      | none =>
        simp only [hlookup, hvalue] at hscan
        exact .inl ⟨.length value, congrArg Scan.phase hscan, rfl⟩
      | some n =>
        simp only [hlookup, hvalue] at hscan
        refine .inr (.of_scan hreceived.symm ?_ (hphase n (hlength.trans (hJ.length hvalue))))
        cases n with
        | zero => exact hscan
        | succ n => exact hscan

/-- A head that is refused has no body. -/
theorem HeadRefused.scan (hf : c.Fresh) (h : c.HeadRefused c') :
    (J.scan c.buffer).phase = .bodiless := by
  obtain ⟨-, fin, hfin, hr⟩ := h
  obtain ⟨c₀, hblank, -⟩ := readHead_fresh hf hr
  have hafter : J.afterHead (c.buffer.take fin) = .bodiless := by
    unfold Judge.afterHead
    rw [hblank]
  rw [← List.take_append_drop (fin + 4) c.buffer, Judge.scan_append, Judge.scan_afterHead hfin,
    hafter, Judge.foldl_over _ (.inr (.inl rfl))]

/-- Nor has a preflight. -/
theorem HeadRead.scan_preflight (hf : c.Fresh) (h : c.HeadRead c') (hm : c'.method = str "OPTIONS") :
    (J.scan c.buffer).phase = .bodiless := by
  obtain ⟨-, fin, c₁, hfin, hr, rfl⟩ := h
  obtain ⟨c₀, hblank, hsame⟩ := readHead_fresh hf hr
  obtain ⟨hmethod, -, -⟩ := hsame rfl
  have hafter : J.afterHead (c.buffer.take fin) = .bodiless := by
    unfold Judge.afterHead
    rw [hblank]
    exact if_pos (hmethod.symm.trans hm)
  rw [← List.take_append_drop (fin + 4) c.buffer, Judge.scan_append, Judge.scan_afterHead hfin,
    hafter, Judge.foldl_over _ (.inr (.inl rfl))]

end HttpConnection

/-! ## A rule with a scan -/

section
variable {σ : Type} [Qt]

/-- The surroundings leave the decoder alone, and an answer ends the reading; `Holds d` follows what
is delivered. -/
structure Host.Follows (H : Host σ) (I : QByteArray → σ → Prop) (Holds : QByteArray → σ → Prop) :
    Prop where
  answered : ∀ {data s} c status payload contentType, I data s →
    (H.get (H.respond status payload contentType (H.set c s))).state = .responded
  answeredShort : ∀ {data s} f, I data s → (H.get (H.fail 500 (H.write f data s).2)).state = .responded
  announced : ∀ {s c}, I [] s → (H.get s).HeadRead c → c.method ≠ str "OPTIONS" →
    c.SameDecoder (H.get (H.headersReady (H.set c s))) ∧
      ((H.get (H.headersReady (H.set c s))).state = c.state ∨
        (H.get (H.headersReady (H.set c s))).state = .responded)
  begins : ∀ {s c}, I [] s → (H.get s).HeadRead c →
    (H.get (H.headersReady (H.set c s))).state = .readingBody → Holds [] (H.headersReady (H.set c s))
  set : ∀ {d s} c, Holds d s → Holds d (H.set c s)
  bodyProgress : ∀ {d s}, Holds d s → Holds d (H.bodyProgress s)
  keep : ∀ {d data s}, I data s → (H.get s).InBody → (H.get s).sink = none → Holds d s →
    Holds (d ++ data) s
  write : ∀ {d data s f}, I data s → (H.get s).InBody → (H.get s).sink = some f →
    (H.write f data s).1 = data.length → Holds d s → Holds (d ++ data) (H.write f data s).2

/-- `b` has come. What has been taken off it scans to where the decoder is, with `d` delivered and
`data` in hand; or a fault was overlooked. -/
structure Port.Tracked (P : Port σ) (J : Judge) (Holds : QByteArray → σ → Prop)
    (b data : QByteArray) (s : σ) : Prop where
  head : (P.get s).state = .readingHeaders → (P.get s).Fresh ∧ b = (P.get s).buffer
  body : (P.get s).InBody → ∃ a, b = a ++ (P.get s).buffer ∧
    (J.Misreads a ∨ ∃ d, Holds d s ∧ (P.get s).Reads J a d data)

/-- And reading waits for more: there is no fault but those that are overlooked. -/
structure Port.Rested (P : Port σ) (J : Judge) (Holds : QByteArray → σ → Prop) (b : QByteArray)
    (s : σ) : Prop extends P.Tracked J Holds b [] s where
  faults : (P.get s).state ≠ .responded → ∀ f, (J.scan b).phase = .faulty f → f.overlooked = true

namespace Port

variable {P : Port σ} {J : Judge} {Holds : QByteArray → σ → Prop} {b data : QByteArray} {s : σ}

theorem Rested.of_responded (h : (P.get s).state = .responded) : P.Rested J Holds b s where
  head hs := State.noConfusion (hs.symm.trans h)
  body hb := State.noConfusion (hb.1.symm.trans h)
  faults hne := absurd h hne

/-- What was taken off a stream with a fault in it that is overlooked. -/
theorem misreads_faults {a l : QByteArray} (h : J.Misreads a) {f : Fault}
    (hf : (J.scan (a ++ l)).phase = .faulty f) : f.overlooked = true := by
  obtain ⟨g, hg, hover⟩ := h.append l
  cases hg.symm.trans hf
  exact hover

theorem Tracked.stop (h : P.Tracked J Holds b [] s) (hs : (P.get s).Stops) :
    P.Rested J Holds b s where
  toTracked := h
  faults hne f hf := by
    by_cases hhead : (P.get s).state = .readingHeaders
    · cases hs with
      | head _ hnone _ =>
        rw [(h.head hhead).2, Judge.scan_head hnone] at hf
        cases hf
      | size hb | data hb | ending hb | trailer hb | done hb | sized hb =>
        exact State.noConfusion (hhead.symm.trans hb.1)
    · have hb : (P.get s).InBody := by
        cases hs with
        | head hst => exact absurd hst hhead
        | size hb | data hb | ending hb | trailer hb | done hb | sized hb => exact hb
      obtain ⟨a, rfl, hmiss | ⟨d, -, hr⟩⟩ := h.body hb
      · exact misreads_faults hmiss hf
      · exact absurd hf (hs.reads hb hr f)

theorem Tracked.move (h : P.Tracked J Holds b [] s) (hJ : J.Sound)
    (hset : ∀ {d} c, Holds d s → Holds d (P.set c s)) (hb : (P.get s).InBody)
    (hc : (P.get s).chunked = true) {c : HttpConnection} (hm : (P.get s).Move c) :
    P.Tracked J Holds b [] (P.set c s) where
  head hs := by
    rw [Port.get_set] at hs
    exact State.noConfusion (hs.symm.trans (hm.inBody hb).1)
  body _ := by
    obtain ⟨a, rfl, hread⟩ := h.body hb
    rw [Port.get_set]
    rcases hread with hmiss | ⟨d, hd, hr⟩
    · obtain ⟨l, hl⟩ : ∃ l, (P.get s).buffer = l ++ c.buffer := hm.shrinks
      exact ⟨a ++ l, by rw [hl, List.append_assoc], .inl (hmiss.append l)⟩
    · obtain ⟨l, hl, hread⟩ := hm.reads hJ hc hr
      exact ⟨a ++ l, by rw [hl, List.append_assoc],
        hread.imp_right fun hr' => ⟨d, hset c hd, hr'⟩⟩

theorem Tracked.goAhead (h : P.Tracked J Holds b [] s)
    (hset : ∀ {d} c, Holds d s → Holds d (P.set c s)) (hb : (P.get s).InBody) :
    P.Tracked J Holds b [] (P.modify (fun c => { c with sent := c.sent ++ [.continue100] }) s) where
  head hs := by
    rw [Port.get_modify] at hs
    exact State.noConfusion (hs.symm.trans hb.1)
  body _ := by
    obtain ⟨a, ha, hread⟩ := h.body hb
    rw [Port.get_modify]
    exact ⟨a, ha, hread.imp_right fun ⟨d, hd, hr⟩ =>
      ⟨d, hset _ hd, hr.congr ⟨rfl, rfl, rfl, rfl, rfl, rfl⟩⟩⟩

theorem Tracked.take (h : P.Tracked J Holds b [] s)
    (hset : ∀ {d} c, Holds d s → Holds d (P.set c s)) (hb : (P.get s).InBody) {n : Nat}
    {c : HttpConnection} (ht : (P.get s).Takes n c) :
    P.Tracked J Holds b ((P.get s).buffer.take n) (P.set c s) where
  head hs := by
    rw [Port.get_set] at hs
    exact State.noConfusion (hs.symm.trans (ht.inBody hb).1)
  body _ := by
    obtain ⟨a, rfl, hread⟩ := h.body hb
    rw [Port.get_set]
    have hbuf : (P.get s).buffer = (P.get s).buffer.take n ++ c.buffer := by
      rw [ht.buffer, List.take_append_drop]
    refine ⟨a ++ (P.get s).buffer.take n, by rw [List.append_assoc, ← hbuf], ?_⟩
    rcases hread with hmiss | ⟨d, hd, hr⟩
    · exact .inl (hmiss.append _)
    · exact .inr ⟨d, hset c hd, (ht.reads hr).2⟩

/-- A block has been delivered. -/
theorem Tracked.deliver {t : σ} (h : P.Tracked J Holds b data s) (hb : (P.get s).InBody)
    (body : QByteArray) (ht : P.get t = { P.get s with
      body := body
      bodyReceived := (P.get s).bodyReceived + data.length })
    (hd : ∀ {d}, Holds d s → Holds (d ++ data) t) : P.Tracked J Holds b [] t where
  head hs := by
    rw [ht] at hs
    exact State.noConfusion (hs.symm.trans hb.1)
  body _ := by
    obtain ⟨a, ha, hread⟩ := h.body hb
    rw [ht]
    exact ⟨a, ha, hread.imp_right fun ⟨d, hd', hr⟩ => ⟨d ++ data, hd hd', hr.deliver body⟩⟩

omit [Qt] in
/-- A segment is more of the stream. -/
theorem get_feed (data : QByteArray) (s : σ) :
    P.get (P.modify (HttpConnection.feed data) s) = (P.get s).feed data := Port.get_modify _ _ _

theorem Tracked.feed (h : P.Tracked J Holds b [] s)
    (hset : ∀ {d} c, Holds d s → Holds d (P.set c s)) (data : QByteArray) :
    P.Tracked J Holds (b ++ data) [] (P.modify (HttpConnection.feed data) s) where
  head hs := by
    rw [get_feed] at hs ⊢
    obtain ⟨hfresh, hb⟩ := h.head hs
    exact ⟨⟨hfresh.headers, hfresh.bodyReceived, hfresh.chunkState⟩, by rw [hb]; rfl⟩
  body hb := by
    rw [get_feed] at hb ⊢
    obtain ⟨a, ha, hread⟩ := h.body hb
    refine ⟨a, by rw [ha, List.append_assoc]; rfl, hread.imp_right fun ⟨d, hd, hr⟩ => ?_⟩
    exact ⟨d, hset _ hd, hr.received, hr.scan⟩

/-- The head has been read, and the handlers let the body come. -/
theorem Tracked.headers {H : Host σ} {I : QByteArray → σ → Prop} (h : H.Tracked J Holds b [] s) (hJ : J.Sound) (hf : H.Follows I Holds)
    (hI : I [] s) {c : HttpConnection} (hr : (H.get s).HeadRead c) (hm : c.method ≠ str "OPTIONS")
    (hst : (H.get (H.headersReady (H.set c s))).state = .readingBody) :
    H.Tracked J Holds b [] (H.headersReady (H.set c s)) where
  head hs := State.noConfusion (hs.symm.trans hst)
  body _ := by
    obtain ⟨hfresh, rfl⟩ := h.head hr.1
    have hsame := (hf.announced hI hr hm).1
    obtain ⟨l, hl, hread⟩ := hr.reads hJ hfresh hm
    refine ⟨l, by rw [hsame.buffer, hl], hread.imp_right fun hread => ?_⟩
    exact ⟨[], hf.begins hI hr hst, hread.congr hsame⟩

end Port

namespace Host

variable {H : Host σ} {I : QByteArray → σ → Prop} {Q : σ → Prop} {J : Judge}
  {Holds : QByteArray → σ → Prop} {b data : QByteArray} {s : σ}

/-- Over a rule for the surroundings, reading is what the stream says. -/
theorem Rule.tracked (h : H.Rule I Q) (hf : H.Follows I Holds) (hJ : J.Sound) (b : QByteArray) :
    H.FineRule (fun data s => I data s ∧ H.Tracked J Holds b data s)
      (fun s => Q s ∧ H.Rested J Holds b s) where
  get_bodyProgress := h.get_bodyProgress
  get_write := h.get_write
  keep := fun {s data} hI hb hsink hroom => by
    refine ⟨h.keep hI.1 hb hsink hroom, hI.2.deliver hb ((H.get s).body ++ data) ?_ fun hd => ?_⟩
    · rw [h.get_bodyProgress, Port.get_modify]
    · exact hf.bodyProgress (hf.set _ (hf.keep hI.1 hb hsink hd))
  write := fun {s f data} hI hb hsink hroom hw => by
    refine ⟨h.write hI.1 hb hsink hroom hw, hI.2.deliver hb (H.get s).body ?_ fun hd => ?_⟩
    · rw [h.get_bodyProgress, Port.get_modify, h.get_write]
    · exact hf.bodyProgress (hf.set _ (hf.write hI.1 hb hsink hw hd))
  short := fun {s f data} hI hb hsink hroom hw =>
    ⟨h.short hI.1 hb hsink hroom hw, .of_responded (hf.answeredShort f hI.1)⟩
  longHead := fun {s} hI hs hnone hlong => by
    refine ⟨h.longHead hI.1 hs hnone hlong, .of_responded ?_⟩
    have hres := hf.answered (H.get s) 431 [] jsonType hI.1
    rwa [Port.set_get] at hres
  badHead := fun {s c} hI hr => ⟨h.badHead hI.1 hr, .of_responded (hf.answered c 400 [] jsonType hI.1)⟩
  headers := fun {s c} hI hr hm => by
    obtain ⟨hQ, hI'⟩ := h.headers hI.1 hr hm
    refine ⟨fun hst => ⟨hQ hst, .of_responded ?_⟩, fun hst =>
      ⟨⟨(hI' hst).1, hI.2.headers hJ hf hI.1 hr hm hst⟩, (hI' hst).2⟩⟩
    refine (hf.announced hI.1 hr hm).2.resolve_left fun hsame => hst ?_
    rw [hsame]
    obtain ⟨-, fin, c₁, -, -, rfl⟩ := hr
    rfl
  preflight := fun {s c} hI hr hm =>
    ⟨h.preflight hI.1 hr hm, .of_responded (hf.answered c 204 [] [] hI.1)⟩
  stop := fun hI hs => ⟨h.fine.stop hI.1 hs, hI.2.stop hs⟩
  move := fun hI hb hc hm => ⟨h.fine.move hI.1 hb hc hm, hI.2.move hJ (hf.set ·) hb hc hm⟩
  goAhead := fun hI hb => ⟨h.fine.goAhead hI.1 hb, hI.2.goAhead (hf.set ·) hb⟩
  take := fun n hI hb ht => ⟨h.fine.take n hI.1 hb ht, hI.2.take (hf.set ·) hb ht⟩
  refuse := fun {s c status} hI hb hc hr =>
    ⟨h.fine.refuse hI.1 hb hc hr, .of_responded (hf.answered c status [] jsonType hI.1)⟩
  tooLong := fun {s data} hI hb hn => by
    refine ⟨h.fine.tooLong hI.1 hb hn, .of_responded ?_⟩
    have hres := hf.answered (H.get s) 413 [] jsonType hI.1
    rwa [Port.set_get] at hres

/-- Of a segment that is read: the stream goes on, or is read to the end of its request. -/
theorem Rule.onReadyRead_tracked (h : H.Rule I Q) (hf : H.Follows I Holds) (hJ : J.Sound)
    (ht : H.Tracked J Holds b [] s) (data : QByteArray) (hst : (H.get s).state ≠ .responded)
    (hcomp : (H.get s).bodyComplete = false) (hI : I [] (H.modify (HttpConnection.feed data) s)) :
    (H.onReadyRead data s = H.mute.onReadyRead data s ∧ Q (H.onReadyRead data s) ∧
      H.Rested J Holds (b ++ data) (H.onReadyRead data s)) ∨
    ∃ t d, I [] t ∧ (H.get t).InBody ∧ (J.Misreads (b ++ data) ∨
        Holds d t ∧ d.length = (H.get t).bodyReceived ∧ J.scan (b ++ data) = ⟨.complete, d⟩) ∧
      H.mute.onReadyRead data s = H.modify HttpConnection.completed t ∧
      H.onReadyRead data s = H.requestReady (H.modify HttpConnection.completed t) := by
  rcases (h.tracked hf hJ (b ++ data)).onReadyRead data hst hcomp ⟨hI, ht.feed (hf.set ·) data⟩ with
    ⟨heq, hQ⟩ | ⟨t, ⟨hIt, htt⟩, hb, hall, hr, hready⟩
  · exact .inl ⟨heq, hQ⟩
  · right
    obtain ⟨a, ha, hmiss | ⟨d, hd, hread⟩⟩ := htt.body hb
    · exact ⟨t, [], hIt, hb, .inl (ha ▸ hmiss.append _), hr, hr ▸ hready⟩
    · have hscan := hall.reads hread
      refine ⟨t, d, hIt, hb, .inr ⟨hd, hread.received, ?_⟩, hr, hr ▸ hready⟩
      rw [ha, Judge.complete_append (by rw [hscan]), hscan]

end Host

end

end LocalSend
