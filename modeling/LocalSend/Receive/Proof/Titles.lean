import LocalSend.Http.Proof.Headers
import LocalSend.Receive.Proof.Streams

/-!
# What a connection was asked for

The method, the path and the query of a connection are what the head of its stream spells, once the
head has been read (`Titled`), and stay so (`Titled.step`).
-/

set_option autoImplicit false

namespace LocalSend

/-- What a request asks for: its method, its path and its query. -/
abbrev Title := QString × QString × AList fun _ : QString => QString

/-- What the head of a stream asks for, once it is there. -/
def titleOf [Qt] (stream : QByteArray) : Option Title :=
  (Lib.indexOf (crlf ++ crlf) stream).map fun fin =>
    (Port.readHead (stream.take fin) (.accepted 0 [] none)).1.title

section
variable [Qt]

/-- What comes after a head changes nothing about it. -/
theorem titleOf_append {b : QByteArray} {t : Title} (h : titleOf b = some t) (l : QByteArray) :
    titleOf (b ++ l) = some t := by
  unfold titleOf at h ⊢
  rw [Option.map_eq_some_iff] at h
  obtain ⟨fin, hfin, ht⟩ := h
  have hle := Lib.indexOf_le hfin
  rw [Lib.indexOf_append l hfin, Option.map_some, List.take_append_of_le_length (by omega), ht]

theorem titleOf_prefix {b stream : QByteArray} {t t' : Title} (hb : titleOf b = some t)
    (hs : titleOf stream = some t') (h : b <+: stream) : t = t' := by
  obtain ⟨l, rfl⟩ := h
  exact Option.some.inj ((titleOf_append hb l).symm.trans hs)

/-- Of the connection a head is read into only the title matters for the title. -/
theorem Port.title_readHead {c d : HttpConnection} (h : d.title = c.title) (head : QByteArray) :
    (readHead head d).1.title = (readHead head c).1.title := by
  have hquery : d.query = c.query := congrArg (fun t => t.2.2) h
  rw [readHead_eq, readHead_eq]
  split
  · simp only
    split <;> split <;>
      simp only [HttpConnection.title, withTarget, setFraming, hquery]
  · exact h

/-- A segment is taken into the head, and the head is read once it is there. -/
theorem Host.onReadyRead_head {σ : Type} (H : Host σ) {s : σ} (data : QByteArray)
    (hs : (H.get s).state = .readingHeaders) (hc : (H.get s).bodyComplete = false) :
    H.onReadyRead data s =
      let u := H.modify (HttpConnection.feed data) s
      match Lib.indexOf (crlf ++ crlf) ((H.get s).buffer ++ data) with
      | none => if ((H.get s).buffer ++ data).length > MaxHeadSize then H.fail 431 u else u
      | some fin =>
        let (ok, v) := H.parseHead (((H.get s).buffer ++ data).take fin)
          (H.modify (fun c => { c with buffer := c.buffer.drop (fin + 4) }) u)
        if ok then H.beginBody v else v := by
  have hopen : ¬ ((H.get s).state = .responded ∨ (H.get s).bodyComplete = true) := by
    rw [hs, hc]
    decide
  unfold Host.onReadyRead
  simp only [Host.modify_feed, Port.get_modify, HttpConnection.feed]
  refine (if_neg hopen).trans ((if_pos hs).trans ?_)
  cases Lib.indexOf (crlf ++ crlf) ((H.get s).buffer ++ data) <;> rfl

end

namespace World

/-- Nothing has been asked for. -/
def noTitle : Title := ([], [], ∅)

section
variable [Qt] {g : Guard} {w v : World} {i : ConnId} {b : QByteArray}

/-- What `i` was asked for is what the head of `b` says, if it has been read. -/
def Titled (i : ConnId) (b : QByteArray) (w : World) : Prop := i < w.nextConn →
  (w.conns i).title = noTitle ∧ (w.conns i).state ≠ .readingBody ∨
    (w.conns i).state ≠ .readingHeaders ∧ titleOf b = some (w.conns i).title

/-- The head has been read. -/
theorem Titled.read {t : Title} (hst : (w.conns i).state ≠ .readingHeaders)
    (ht : titleOf b = some t) (h : (w.conns i).title = t) : Titled i b w :=
  fun _ => .inr ⟨hst, h ▸ ht⟩

theorem conns_modify (f : HttpConnection → HttpConnection) (w : World) :
    ((host i).modify f w).conns i = f (w.conns i) := (port_of (g := .quiet) i).conns_modify f w

theorem Act.titled (ha : Act g w v) (hr : ¬ g.reads i) (hw : Titled i b w) : Titled i b v := by
  intro hlt
  by_cases hi : i < w.nextConn
  · obtain ⟨-, hu⟩ := ha.unread hi hr
    rw [hu.title]
    refine (hw hi).imp (fun hx => ⟨hx.1, fun hs => ?_⟩) fun hx => ⟨fun hs => ?_, hx.2⟩
    · rcases hu.state with heq | hres
      · exact hx.2 (heq.symm.trans hs)
      · exact State.noConfusion (hs.symm.trans hres)
    · rcases hu.state with heq | hres
      · exact hx.1 (heq.symm.trans hs)
      · exact State.noConfusion (hs.symm.trans hres)
  · rcases ha.nextConn with heq | ⟨-, address, certificate, rfl⟩
    · exact absurd (Nat.lt_of_lt_of_eq hlt heq) hi
    · obtain rfl : i = w.nextConn :=
        Nat.le_antisymm (Nat.le_of_lt_succ hlt) (Nat.le_of_not_lt hi)
      left
      change (Function.update w.conns w.nextConn _ w.nextConn).title = _ ∧
        (Function.update w.conns w.nextConn _ w.nextConn).state ≠ _
      rw [Function.update_self]
      exact ⟨rfl, State.noConfusion⟩

/-- A connection that has read its head has been asked for what it says. -/
theorem Titled.kept {c : HttpConnection} (hc : c.Kept (v.conns i))
    (hst : c.state ≠ .readingHeaders) (hb : titleOf b = some c.title) : Titled i b v := by
  obtain ⟨hst', hmethod, hpath, hquery, -⟩ := hc.request hst
  refine .read hst' hb ?_
  unfold HttpConnection.title
  rw [hmethod, hpath, hquery]

/-- The body is read, and what follows is done. -/
theorem consumeBody_acts (h : w.Inv) (hl : w.live i = true) (hb : (w.conns i).InBody) :
    Acts .all w ((host i).consumeBody w) := by
  have hI : Reading i w [] w := ⟨.refl i w, hb.2⟩
  rcases (host_rule h hl).split_consumeBody hI hb with ⟨-, hQ⟩ | ⟨s, hs, hbs, -, hr, ht⟩
  · exact hQ.1.mono (Guard.reading_le trivial)
  · have hreads := hs.finish hbs
    have hv := hreads.acts.inv h
    rw [ht, hr]
    exact (hreads.acts.mono (Guard.reading_le trivial)).trans (onRequestReady_acts hv
      (hreads.toNear.born h (born_of_live hl)) hreads.state hreads.complete
      ⟨fun _ => trivial, fun _ _ _ => trivial, fun _ _ _ => trivial⟩)

/-- The head has just been read. -/
theorem beginBody_titled (h : w.Inv) (hl : w.live i = true) (hb : (w.conns i).InBody)
    (hnew : w.uploads.lookup i = none) (ht : titleOf b = some (w.conns i).title) :
    Titled i b ((host i).beginBody w) := by
  have hi := born_of_live hl
  have hreading : (w.conns i).state ≠ .readingHeaders := by
    rw [hb.1]
    exact State.noConfusion
  have hself : (host i).modify (fun c => { c with state := .readingBody }) w = w := by
    have hconn : { w.conns i with state := .readingBody } = w.conns i := by rw [← hb.1]
    exact (congrArg (fun c => w.setConn i c) hconn).trans ((port i).set_get w)
  unfold Host.beginBody
  simp only [hself]
  split
  · obtain ⟨hu, hst⟩ := respond_unread hi 204 [] []
    refine .read ?_ ht hu.title
    change (((port i).respond 204 [] [] w).conns i).state ≠ _
    rw [hst]
    exact State.noConfusion
  have hheads := onHeadersReady_heads h hl hb hnew
  split
  · refine .read (fun hs => ?_) ht hheads.unread.title
    rcases hheads.unread.state with heq | hres
    · exact hreading (heq.symm.trans hs)
    · exact State.noConfusion (hs.symm.trans hres)
  · rename_i hgoes
    have hst := not_not.1 hgoes
    have hn := hheads.near hst
    have hcomp := hheads.unread.bodyComplete.trans hb.2
    -- the client may be told to go ahead
    have hgo : ∀ v : World, Near i (w.onHeadersReady i) v →
        (v.conns i).title = ((w.onHeadersReady i).conns i).title → (v.conns i).InBody →
        Titled i b ((host i).consumeBody v) := by
      intro v hv htitle hin
      have hinv := (hn.trans hv).acts.inv h
      have hlive := (hn.trans hv).live h hl
      have hacts := consumeBody_acts hinv hlive hin
      refine .kept ((hacts.kept hinv).2 i (born_of_live hlive)) ?_ ?_
      · rw [hin.1]
        exact State.noConfusion
      · rw [htitle, hheads.unread.title]
        exact ht
    split
    · refine hgo _ (.setConn ?_ rfl) ?_ ?_
      · exact { HttpConnection.Step.refl _ with
          sent := ⟨[.continue100], rfl, by simp⟩ }
      · rw [conns_modify]
        rfl
      · rw [conns_modify]
        exact ⟨hst, hcomp⟩
    · exact hgo _ (.refl i _) rfl ⟨hst, hcomp⟩

theorem onReadyRead_titled (h : w.Inv) (hl : w.live i = true)
    (hst : (w.conns i).state = .readingHeaders) (hc : (w.conns i).bodyComplete = false)
    (hb : b = (w.conns i).buffer) (ht : (w.conns i).title = noTitle) (data : QByteArray) :
    Titled i (b ++ data) ((host i).onReadyRead data w) := by
  have hI := Reading.feed (i := i) hc data
  have heq := (host i).onReadyRead_head (s := w) data hst hc
  generalize hu : (host i).modify (HttpConnection.feed data) w = u at hI heq
  have hconn : u.conns i = (w.conns i).feed data := by
    rw [← hu]
    exact Function.update_self ..
  have hinv := hI.1.acts.inv h
  have hlive := hI.1.live h hl
  have hut : (u.conns i).title = noTitle := by
    rw [hconn]
    exact ht
  have hanswer : ∀ {v : World} (status : Nat), i < v.nextConn →
      (((port i).fail status v).conns i).title = (v.conns i).title ∧
        (((port i).fail status v).conns i).state = .responded := by
    intro v status hi
    obtain ⟨hunread, hres⟩ := respond_unread hi status [] jsonType
    exact ⟨hunread.title, hres⟩
  rw [heq]
  cases hfin : Lib.indexOf (crlf ++ crlf) ((w.conns i).buffer ++ data) with
  | none =>
    have hfin' : Lib.indexOf (crlf ++ crlf) (((host i).get w).buffer ++ data) = none := hfin
    simp only [hfin']
    intro _
    left
    split
    · obtain ⟨ht', hst'⟩ := hanswer (v := u) 431 (born_of_live hlive)
      refine ⟨ht'.trans hut, fun hs => ?_⟩
      exact State.noConfusion (hs.symm.trans hst')
    · refine ⟨hut, ?_⟩
      rw [hconn]
      change (w.conns i).state ≠ _
      rw [hst]
      exact State.noConfusion
  | some fin =>
    have hfin' : Lib.indexOf (crlf ++ crlf) (((host i).get w).buffer ++ data) = some fin := hfin
    obtain ⟨c, ok, hread⟩ : ∃ c ok, Port.readHead (((w.conns i).buffer ++ data).take fin)
        { u.conns i with buffer := (u.conns i).buffer.drop (fin + 4) } = (c, ok) := ⟨_, _, rfl⟩
    have hread' : Port.readHead ((((host i).get w).buffer ++ data).take fin)
        { (host i).get u with buffer := ((host i).get u).buffer.drop (fin + 4) } = (c, ok) := hread
    have htitle : titleOf (b ++ data) = some c.title := by
      have hsame := Port.title_readHead (c := .accepted 0 [] none)
        (d := { u.conns i with buffer := (u.conns i).buffer.drop (fin + 4) }) hut
        (((w.conns i).buffer ++ data).take fin)
      rw [hread] at hsame
      rw [hb, titleOf, hfin, Option.map_some, ← hsame]
    simp only [hfin', Port.parseHead, Port.get_modify, Port.set_modify, hread']
    cases ok with
    | false =>
      have hborn : i < u.nextConn := born_of_live hlive
      obtain ⟨ht', hst'⟩ := hanswer (v := u.setConn i c) 400 hborn
      rw [conns_setConn] at ht'
      refine .read (fun hs => ?_) htitle ht'
      exact State.noConfusion (hs.symm.trans hst')
    | true =>
      have hhead : (u.conns i).HeadRead { c with state := .readingBody } := by
        refine ⟨?_, fin, c, ?_, ?_, rfl⟩
        · rw [hconn]
          exact hst
        · rw [hconn]
          exact hfin
        · rw [← hread, hconn]
          rfl
      obtain ⟨-, hinv', hlive', hbody, hnew⟩ := hI.head h hl hhead
      have hsame : (host i).beginBody ((host i).set c u) =
          (host i).beginBody (u.setConn i { c with state := .readingBody }) := by
        have hmodify : (host i).modify (fun c => { c with state := .readingBody })
            ((host i).set c u) = (host i).modify (fun c => { c with state := .readingBody })
              ((host i).set { c with state := .readingBody } u) := by
          unfold Port.modify
          rw [Port.get_set, Port.get_set, Port.set_set, Port.set_set]
        unfold Host.beginBody
        simp only [hmodify]
        rfl
      simp only [if_true]
      rw [hsame]
      refine beginBody_titled hinv' hlive' hbody hnew ?_
      rw [conns_setConn]
      exact htitle

/-- A segment is read. -/
theorem Titled.segment (ht : Titled i b w) (hk : Knows i b w) (h : w.Inv) (hl : w.live i = true)
    (data : QByteArray) : Titled i (b ++ data) (w.step (.readyRead i data)) := by
  have hi := born_of_live hl
  have hacts := step_acts h (.readyRead i data) (permits_all w _)
  rcases ht hi with ⟨hno, hbody⟩ | ⟨hst, htitle⟩
  · rw [show w.step (.readyRead i data) = _ from if_pos hl]
    by_cases hlate : (w.conns i).state = .responded ∨ (w.conns i).bodyComplete = true
    · rw [Host.onReadyRead_late (host i) data hlate]
      refine fun _ => .inl ?_
      rw [conns_modify]
      exact ⟨hno, hbody⟩
    · obtain ⟨hopen, hc⟩ := not_or.1 hlate
      have hst : (w.conns i).state = .readingHeaders := by
        cases hs : (w.conns i).state with
        | readingHeaders => rfl
        | readingBody => exact absurd hs hbody
        | responded => exact absurd hs hopen
      rw [Bool.not_eq_true] at hc
      exact onReadyRead_titled h hl hst hc ((hk.born hi).tracked.head hst).2 hno data
  · have hkept := (hacts.kept h).2 i hi
    exact .kept hkept hst (titleOf_append htitle data)

theorem Titled.step (ht : Titled i b w) (hk : Knows i b w) (h : w.Inv) (e : Event) :
    Titled i (b ++ w.brings i e) (w.step e) := by
  rcases brings_cases i w e with ⟨data, rfl, hl, hbrings⟩ | ⟨hbrings, hpermits⟩
  · rw [hbrings]
    exact ht.segment hk h hl data
  · rw [hbrings, List.append_nil]
    rcases hpermits with heq | hpermits
    · rw [heq]
      exact ht
    · exact (step_acts h e hpermits).keep (P := Titled i b)
        (fun ha hv => ha.titled (g := othersRead i) (not_not.2 rfl) hv) ht

end

end World

end LocalSend
