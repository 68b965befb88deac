import LocalSend.Receive.Proof.Filed

/-!
# Where every file comes from

Whatever the service took for complete was the body of an upload in the session that was open, for
the row of the file id it named (`Brought`): whether or not the upload was ever answered, and
whatever became of the session after that.
-/

set_option autoImplicit false

namespace LocalSend

/-- No upload arrives. -/
def Guard.unsettled (g : Guard) : Guard := { g with finish := fun _ _ => False }

namespace World

/-- The connection `j` uploaded these bytes in the session that was open after `pre`, as the file of
this row. -/
structure BroughtBy (body : ConnId → QByteArray) (w : World) (pre : List Effect) (j : ConnId)
    (row : Nat) (content : QByteArray) : Prop where
  born : j < w.nextConn
  head : (w.conns j).state ≠ .readingHeaders
  path : (w.conns j).path = endpoint Protocol.PathUpload
  content : content = body j
  session : ∃ s, Log.session pre = some s ∧ (w.conns j).queryValue (str "sessionId") = s.id
  asked : ∃ a, Log.asked pre = some a ∧ row < a.files.length ∧
    (a.files.getD row default).id = (w.conns j).fileId

def Brought (body : ConnId → QByteArray) (w : World) : Prop :=
  ∀ pre j row path content post, w.log = pre ++ Effect.stored j row path content :: post →
    BroughtBy body w pre j row content

section
variable [Qt] {g : Guard} {w v : World} {body : ConnId → QByteArray}

omit [Qt] in
theorem BroughtBy.later {pre : List Effect} {j : ConnId} {row : Nat} {content : QByteArray}
    (h : BroughtBy body w pre j row content) (hl : Later w v) : BroughtBy body v pre j row content :=
  let hrequest := (hl.kept j h.born).request h.head
  { born := Nat.lt_of_lt_of_le h.born hl.born
    head := hrequest.1
    path := hrequest.2.2.1.trans h.path
    content := h.content
    session := by
      rw [(hl.kept j h.born).queryValue h.head]
      exact h.session
    asked := by
      rw [(hl.kept j h.born).fileId h.head]
      exact h.asked }

/-- An act that is not the end of an upload is one where no upload arrives. -/
theorem Act.settles (ha : Act g w v) :
    (∃ i u, w.uploads.lookup i = some u ∧ (w.Arrived u → g.finish w i) ∧
      v = (settleUpload i u { w with uploads := w.uploads.erase i }).2) ∨
    Act g.unsettled w v := by
  cases ha with
  | settle hu _ _ hg => exact .inl ⟨_, _, hu, hg, rfl⟩
  | outside h1 h2 h3 => exact .inr (.outside (g := g.unsettled) h1 h2 h3 ..)
  | aside => exact .inr (.aside ..)
  | files h => exact .inr (.files h)
  | probe h1 h2 => exact .inr (.probe h1 h2)
  | conns h1 h2 => exact .inr (.conns h1 h2)
  | read h1 h2 h3 => exact .inr (.read h1 h2 h3)
  | complete h1 h2 => exact .inr (.complete h1 h2)
  | reply h1 h2 h3 h4 => exact .inr (.reply h1 h2 h3 h4)
  | connect h => exact .inr (.connect (g := g.unsettled) h _ _)
  | transfer h => exact .inr (.transfer h)
  | wrote h1 h2 h3 h4 h5 => exact .inr (.wrote h1 h2 h3 h4 h5)
  | short h1 h2 h3 h4 h5 h6 h7 => exact .inr (.short h1 h2 h3 h4 h5 h6 h7)
  | park h1 h2 h3 h4 h5 h6 h7 => exact .inr (.park h1 h2 h3 h4 h5 h6 h7)
  | prompt h => exact .inr (.prompt h)
  | openSession h1 h2 => exact .inr (.openSession h1 h2)
  | release h => exact .inr (.release h)
  | enter h1 h2 h3 h4 h5 => exact .inr (.enter h1 h2 h3 h4 h5)
  | mark h1 h2 => exact .inr (.mark h1 h2)
  | drop _ h1 h2 h3 => exact .inr (.drop _ h1 h2 h3)
  | remember h => exact .inr (.remember h)
  | record h => exact .inr (.record h)
  | finish _ h1 h2 => exact .inr (.finish _ h1 h2)
  | posted => exact .inr (.posted _ _)

/-- What is completed, if anything is. -/
theorem Act.stores (ha : Act (World.filing body) w v) (h : w.Inv) (he : w.Explained .all) :
    (∃ l, v.log = w.log ++ l ∧ ∀ e ∈ l, e.stored? = none) ∨
    ∃ i u path, w.uploads.lookup i = some u ∧
      v.log = w.log ++ [Effect.stored i u.row path (body i), Effect.fileStatus u.row .done] := by
  rcases ha.settles with ⟨i, u, hu, hg, rfl⟩ | hquiet
  · have hs := h.served i u hu
    obtain ⟨f, hf, hp, hle, -⟩ := hs.handle
    obtain ⟨d, ⟨_, error, -, heq⟩ | ⟨path, content, hpart, hsize, harrived, -, heq⟩⟩ :=
      settleUpload_spec (w := { w with uploads := w.uploads.erase i }) i (hs.file.symm ▸ hf) hp
    · rw [heq]
      refine .inl ⟨[.fileStatus u.row .failed], rfl, fun e hmem => ?_⟩
      rw [List.mem_singleton.1 hmem]
      rfl
    · obtain ⟨a, ha⟩ := h.recalls (.inr hs.open_)
      obtain rfl : content = f.written := by
        have hrow := (TransferModel.entry_of_indexOfFile hs.found).1
        have hfit := (hs.limit ▸ hle) (ha.size_nonneg he hrow)
        have hsize' : (w.transfer.entry u.row).size ≤ content.length := hsize
        have hlen := hpart.length_le
        exact hpart.eq_of_length (by omega)
      have hwritten := hg ((arrived_uploads _).1 harrived) u f hu hf
      rw [heq]
      refine .inr ⟨i, u, path, hu, ?_⟩
      rw [← hwritten]
      exact List.append_assoc _ _ _
  · obtain ⟨l, hl, hentries⟩ := hquiet.entries h
    refine .inl ⟨l, hl, fun e hmem => ?_⟩
    by_contra hne
    obtain ⟨i, hi⟩ := (hentries e hmem).2 hne
    exact hi

omit [Qt] in
/-- An entry of `h ++ l` is one of `h`, or stands in `l`. -/
theorem split_append {α : Type} {h l pre post : List α} {a : α} (heq : h ++ l = pre ++ a :: post) :
    (∃ post', h = pre ++ a :: post') ∨ ∃ pre', pre = h ++ pre' ∧ l = pre' ++ a :: post := by
  rcases List.append_eq_append_iff.1 heq with ⟨m, hm, hl⟩ | ⟨m, hm, hl⟩
  · exact .inr ⟨m, hm, hl⟩
  · cases m with
    | nil => exact .inr ⟨[], by simpa using hm.symm, by simpa using hl.symm⟩
    | cons b m =>
      obtain ⟨rfl, rfl⟩ := List.cons.inj hl
      exact .inl ⟨m, hm⟩

theorem Act.brought (ha : Act (World.filing body) w v) (h : w.Inv) (he : w.Explained .all)
    (hw : Brought body w) : Brought body v := by
  have hl := ha.later h
  intro pre j row path content post hlog
  rcases ha.stores h he with ⟨l, hv, hnone⟩ | ⟨i, u, path', hu, hv⟩
  · rcases split_append (hv.symm.trans hlog) with ⟨post', hw'⟩ | ⟨pre', -, hl'⟩
    · exact (hw pre j row path content post' hw').later hl
    · cases hnone (.stored j row path content) (hl' ▸ List.mem_append_right _ List.mem_cons_self)
  · rcases split_append (hv.symm.trans hlog) with ⟨post', hw'⟩ | ⟨pre', rfl, hl'⟩
    · exact (hw pre j row path content post' hw').later hl
    · obtain ⟨rfl, hstored⟩ : pre' = [] ∧
          Effect.stored i u.row path' (body i) = .stored j row path content := by
        cases pre' with
        | nil => exact ⟨rfl, (List.cons.inj hl').1⟩
        | cons b pre' =>
          have hrest := (List.cons.inj hl').2
          cases pre' with
          | nil => cases (List.cons.inj hrest).1
          | cons c pre' => cases pre' <;> cases (List.cons.inj hrest).2
      injection hstored with hi hrow _ hcontent
      subst hi hrow
      have hs := h.served i u hu
      obtain ⟨a, ha⟩ := h.recalls (.inr hs.open_)
      have hfound := TransferModel.entry_of_indexOfFile hs.found
      have hby : BroughtBy body w w.log i u.row content := {
        born := hs.born
        head := hs.head
        path := hs.path
        content := hcontent.symm
        session := ⟨⟨w.sessionId, w.sessionAddress, w.tokens⟩,
          by rw [h.session, if_neg hs.open_], hs.session⟩
        asked := ⟨a, ha.asked, ha.fileCount ▸ hfound.1,
          (congrArg Prod.fst (ha.entry u.row)).symm.trans hfound.2⟩ }
      rw [List.append_nil]
      exact hby.later hl

/-- Whatever arrives on a connection is the body it is to bring. -/
theorem Brought.step (hw : Brought body w) (h : w.Inv) (he : w.Explained .all) {e : Event}
    (hbody : ∀ i data, e = .readyRead i data → w.Completes i data →
      ∀ u f, (w.heard i data).uploads.lookup i = some u → (w.heard i data).handles i = some f →
        f.written = body i) : Brought body (w.step e) := by
  have hpermits : Permits (World.filing body) w e := { permits_all w e with
    serves := fun i data hdata hc _ => {
      park := fun _ => trivial
      finish := fun _ _ _ => hbody i data hdata hc
      forget := fun _ _ _ => trivial } }
  have hall : (World.filing body).Le .all := {
    finish := fun _ _ _ => trivial
    park := fun _ h => h
    reads := fun _ h => h
    forget := fun h => h
    outside := fun h => h
    system := fun h => h
    files := fun _ _ h => h }
  exact ((step_acts h e hpermits).keep (P := fun v => (v.Inv ∧ v.Explained .all) ∧ Brought body v)
    (fun ha hv => ⟨⟨ha.inv hv.1.1, (ha.mono hall).explained hv.1.1 hv.1.2⟩,
      ha.brought hv.1.1 hv.1.2 hv.2⟩) ⟨⟨h, he⟩, hw⟩).2

omit [Qt] in
/-- Of connections that are not there yet the body does not matter. -/
theorem Brought.congr {body' : ConnId → QByteArray} (h : Brought body w)
    (hb : ∀ j < w.nextConn, body' j = body j) : Brought body' w := fun pre j row path content post hw =>
  let hby := h pre j row path content post hw
  { hby with content := hby.content.trans (hb j hby.born).symm }

omit [Qt] in
theorem Start.brought (h : w.Start) : Brought body w := by
  intro pre j row path content post hw
  rw [h.log] at hw
  exact absurd hw.symm (List.append_ne_nil_of_right_ne_nil _ (List.cons_ne_nil _ _))

end

end World

end LocalSend
