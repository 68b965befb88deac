import LocalSend.Receive.Proof.Authority
import LocalSend.Receive.Proof.Disk

/-!
# The files of the receiving side

Part files are told apart by their paths (`Stocked`), so that nothing an upload does reaches a file
that is not its own (`Spares`), and every file on the disk has a reason to be there
(`World.Accounted`): it was there before, came from other programs, is being written, was completed,
or the system would not remove it. A connection that has closed has no upload (`Stocked.up`), which
is why what is being written belongs to a connection that is still there.
-/

set_option autoImplicit false

namespace LocalSend

namespace World

section
variable [Qt] {g : Guard} {w v : World} {i : ConnId}

/-! ## Part files -/

/-- The uploads on the table have a part file each, and a connection that is still there. -/
structure Stocked (w : World) : Prop where
  up : ∀ i u, w.uploads.lookup i = some u → (w.conns i).closedEmitted = false
  there : ∀ i u, w.uploads.lookup i = some u → ∃ content, w.disk u.partPath = some (.file content)
  distinct : ∀ i j u u', w.uploads.lookup i = some u → w.uploads.lookup j = some u' →
    u.partPath = u'.partPath → i = j
  named : ∀ i u, w.uploads.lookup i = some u → PartSuffix <:+ u.partPath

/-- Other programs leave alone what is being received. -/
def Considerate (g : Guard) : Prop := ∀ w disk, g.files w disk →
  ∀ i u, w.uploads.lookup i = some u → disk u.partPath = w.disk u.partPath

omit [Qt] in
theorem Stocked.of_kept (hs : w.Stocked)
    (hkept : ∀ j u, v.uploads.lookup j = some u → w.uploads.lookup j = some u ∧
      v.disk u.partPath = w.disk u.partPath ∧
      (v.conns j).closedEmitted = (w.conns j).closedEmitted) : v.Stocked where
  up j u hu := by
    obtain ⟨hw, -, hc⟩ := hkept j u hu
    exact hc.trans (hs.up j u hw)
  there j u hu := by
    obtain ⟨hw, hd, -⟩ := hkept j u hu
    rw [hd]
    exact hs.there j u hw
  distinct j k u u' hu hu' := hs.distinct j k u u' (hkept j u hu).1 (hkept k u' hu').1
  named j u hu := hs.named j u (hkept j u hu).1

omit [Qt] in
/-- The table after an upload has left it. -/
theorem lookup_of_erase {uploads uploads' : AList fun _ : ConnId => Upload} {k j : ConnId}
    {u : Upload} (hup : uploads' = uploads.erase k) (hu : uploads'.lookup j = some u) :
    j ≠ k ∧ uploads.lookup j = some u := by
  have hj : j ≠ k := by
    rintro rfl
    rw [hup, AList.lookup_erase] at hu
    cases hu
  rw [hup, AList.lookup_erase_ne hj] at hu
  exact ⟨hj, hu⟩

omit [Qt] in
theorem isFree_iff {w : World} {path : QString} :
    w.isFree path = true ↔ w.disk path = none ∧ w.disk (path ++ PartSuffix) = none := by
  simp [isFree, fileExists]

theorem FileAct.stocked (ha : FileAct g w v) (h : w.Inv) (hg : Considerate g) (hs : w.Stocked) :
    v.Stocked := by
  have present : ∀ {j u}, w.uploads.lookup j = some u → w.uploads.lookup j ≠ none :=
    fun hu hn => by cases hu.symm.trans hn
  cases ha with
  | same hup hd _ hstay =>
    refine hs.of_kept fun j u hu => ?_
    rw [hup] at hu
    exact ⟨hu, by rw [hd], hstay j (Option.some_ne_none j) (present hu)⟩
  | others hdisk hv =>
    subst hv
    exact hs.of_kept fun j u hu => ⟨hu, hg _ _ hdisk j u hu, rfl⟩
  | probe hp hv =>
    subst hv
    obtain ⟨k, hk⟩ := Option.ne_none_iff_exists'.1 hp
    refine hs.of_kept fun j u hu => ?_
    cases (h.none_on_table hk j).symm.trans hu
  | @enter k row path hadm hfree hup hd _ hstay hopen =>
    obtain ⟨-, hpart⟩ := isFree_iff.1 hfree
    have hfresh : ∀ {j u}, w.uploads.lookup j = some u → u.partPath ≠ path ++ PartSuffix := by
      intro j u hu he
      obtain ⟨content, hc⟩ := hs.there j u hu
      rw [he] at hc
      cases hpart.symm.trans hc
    have hcases : ∀ {j u}, v.uploads.lookup j = some u →
        (j = k ∧ u = ⟨row, k, path ++ PartSuffix, path⟩) ∨
          j ≠ k ∧ w.uploads.lookup j = some u := by
      intro j u hu
      rw [hup] at hu
      by_cases hj : j = k
      · subst hj
        rw [AList.lookup_insert] at hu
        exact .inl ⟨rfl, (Option.some.inj hu).symm⟩
      · rw [AList.lookup_insert_ne hj] at hu
        exact .inr ⟨hj, hu⟩
    refine ⟨fun j u hu => ?_, fun j u hu => ?_, fun j j' u u' hu hu' he => ?_, fun j u hu => ?_⟩
    · rcases hcases hu with ⟨rfl, -⟩ | ⟨hj, hw⟩
      · exact hopen
      · exact (hstay j (Option.some_ne_none j) (present hw)).trans (hs.up j u hw)
    · rcases hcases hu with ⟨rfl, rfl⟩ | ⟨hj, hw⟩
      · exact ⟨[], by rw [hd, Function.update_self]⟩
      · rw [hd, Function.update_of_ne (hfresh hw)]
        exact hs.there j u hw
    · rcases hcases hu with ⟨rfl, rfl⟩ | ⟨hj, hw⟩ <;> rcases hcases hu' with ⟨rfl, rfl⟩ | ⟨hj', hw'⟩
      · rfl
      · exact absurd he.symm (hfresh hw')
      · exact absurd he (hfresh hw)
      · exact hs.distinct j j' u u' hw hw' he
    · rcases hcases hu with ⟨rfl, rfl⟩ | ⟨hj, hw⟩
      · exact List.suffix_append _ _
      · exact hs.named j u hw
  | @ends k u hu hup hends hstay _ =>
    refine hs.of_kept fun j u' hu' => ?_
    obtain ⟨hj, hw⟩ := lookup_of_erase hup hu'
    have hne : u'.partPath ≠ u.partPath := fun he => hj (hs.distinct j k u' u hw hu he)
    refine ⟨hw, ?_, hstay j (fun he => hj (Option.some.inj he)) (present hw)⟩
    rcases hends.elsewhere u'.partPath hne with hsame | ⟨hn, -⟩
    · exact hsame
    · obtain ⟨content, hc⟩ := hs.there j u' hw
      cases hn.symm.trans hc

/-! ## Files that are nobody's part file -/

/-- What `i` had to send is in, or it has been answered. -/
def Past (w : World) (i : ConnId) : Prop :=
  (w.conns i).state = .responded ∨ (w.conns i).bodyComplete = true

omit [Qt] in
theorem Past.kept (h : w.Past i) (hk : (w.conns i).Kept (v.conns i)) : v.Past i :=
  h.imp hk.answered fun hc => (hk.complete hc).1

omit [Qt] in
theorem Past.not_inBody (h : w.Past i) : ¬ (w.conns i).InBody := by
  rintro ⟨hst, hc⟩
  rcases h with h | h
  · exact State.noConfusion (hst.symm.trans h)
  · exact absurd (hc.symm.trans h) (by decide)

/-- Between `w` and `v` the uploads kept to their own files: what else there was is as it was, and
so is the part file of an upload that goes on. -/
structure Spares (w v : World) : Prop where
  born : w.nextConn ≤ v.nextConn
  others : ∀ p node, w.disk p = some node → (∀ i u, w.uploads.lookup i = some u → u.partPath ≠ p) →
    v.disk p = some node ∧ ∀ i u, v.uploads.lookup i = some u → u.partPath ≠ p
  own : ∀ i u, w.uploads.lookup i = some u → i < w.nextConn ∧
    ((v.uploads.lookup i = some u ∧ v.disk u.partPath = w.disk u.partPath) ∨
      (v.uploads.lookup i = none ∧ v.Past i))

theorem Spares.refl (h : w.Inv) : Spares w w :=
  ⟨le_rfl, fun _ _ hp hu => ⟨hp, hu⟩, fun i u hu => ⟨(h.served i u hu).born, .inl ⟨hu, rfl⟩⟩⟩

/-- An act in a chain that other programs do not interrupt and that takes no prepare-upload leaves
alone what no upload writes to. -/
theorem Act.spares_others {u : World} (ha : Act g u v) (h : u.Inv)
    (hfiles : ∀ disk, ¬ g.files u disk) (hp : u.pending = none) {p : QString} {node : Node}
    (hn : u.disk p = some node) (hno : ∀ i x, u.uploads.lookup i = some x → x.partPath ≠ p) :
    v.disk p = some node ∧ ∀ i x, v.uploads.lookup i = some x → x.partPath ≠ p := by
  cases ha.fileAct h with
  | same hup hd _ _ =>
    rw [hd, hup]
    exact ⟨hn, hno⟩
  | others hd => exact absurd hd (hfiles _)
  | probe hpend => exact absurd hp hpend
  | @enter k row path hadm hfree hup hd _ _ _ =>
    obtain ⟨-, hpart⟩ := isFree_iff.1 hfree
    have hne : p ≠ path ++ PartSuffix := by
      rintro rfl
      cases hpart.symm.trans hn
    refine ⟨by rw [hd, Function.update_of_ne hne, hn], fun j x hx => ?_⟩
    rw [hup] at hx
    by_cases hj : j = k
    · subst hj
      rw [AList.lookup_insert] at hx
      obtain rfl := Option.some.inj hx
      exact hne.symm
    · rw [AList.lookup_insert_ne hj] at hx
      exact hno j x hx
  | @ends k x hx hup hends _ _ =>
    refine ⟨?_, fun j y hy => hno j y (lookup_of_erase hup hy).2⟩
    rcases hends.elsewhere p (hno k x hx).symm with hsame | ⟨hn', -⟩
    · rw [hsame, hn]
    · cases hn'.symm.trans hn

/-- And an upload that is on its way goes on with its file as it is, or ends for good. -/
theorem Act.spares_own {u : World} (ha : Act g u v) (h : u.Inv) (hs : u.Stocked)
    (hfiles : ∀ disk, ¬ g.files u disk) (hp : u.pending = none) {j : ConnId} {x : Upload}
    (hx : u.uploads.lookup j = some x) :
    (v.uploads.lookup j = some x ∧ v.disk x.partPath = u.disk x.partPath) ∨
      (v.uploads.lookup j = none ∧ v.Past j) := by
  cases ha.fileAct h with
  | same hup hd _ _ =>
    rw [hd, hup]
    exact .inl ⟨hx, rfl⟩
  | others hd => exact absurd hd (hfiles _)
  | probe hpend => exact absurd hp hpend
  | @enter k row path hadm hfree hup hd _ _ _ =>
    obtain ⟨-, hpart⟩ := isFree_iff.1 hfree
    obtain ⟨content, hc⟩ := hs.there j x hx
    have hjk : j ≠ k := by
      rintro rfl
      cases hadm.new.symm.trans hx
    have hne : x.partPath ≠ path ++ PartSuffix := by
      intro he
      rw [he] at hc
      cases hpart.symm.trans hc
    rw [hup, hd, AList.lookup_insert_ne hjk, Function.update_of_ne hne]
    exact .inl ⟨hx, rfl⟩
  | @ends k y hy hup hends _ hend =>
    rw [hup]
    by_cases hjk : j = k
    · subst hjk
      exact .inr ⟨AList.lookup_erase _ _, hend⟩
    · rw [AList.lookup_erase_ne hjk]
      have hne : x.partPath ≠ y.partPath := fun he => hjk (hs.distinct j k x y hx hy he)
      refine .inl ⟨hx, ?_⟩
      rcases hends.elsewhere x.partPath hne with hd | ⟨hn, -⟩
      · exact hd
      · obtain ⟨content, hc⟩ := hs.there j x hx
        cases hn.symm.trans hc

/-- A connection that is past its body is given no other upload. -/
theorem Act.spares_past {u : World} (ha : Act g u v) (h : u.Inv)
    (hfiles : ∀ disk, ¬ g.files u disk) {j : ConnId} (hj : j < u.nextConn)
    (hx : u.uploads.lookup j = none) (hpast : u.Past j) :
    v.uploads.lookup j = none ∧ v.Past j := by
  refine ⟨?_, hpast.kept ((ha.kept h).2 _ hj)⟩
  cases ha.fileAct h with
  | same hup _ _ _ => rw [hup, hx]
  | others hd => exact absurd hd (hfiles _)
  | probe _ hv => rw [hv, hx]
  | @enter k row path hadm _ hup _ _ _ _ =>
    have hjk : j ≠ k := by
      rintro rfl
      exact hpast.not_inBody hadm.inBody
    rw [hup, AList.lookup_insert_ne hjk, hx]
  | @ends k y hy hup _ _ _ =>
    by_cases hjk : j = k
    · rw [hup, hjk, AList.lookup_erase]
    · rw [hup, AList.lookup_erase_ne hjk, hx]

theorem Act.spares {u : World} (ha : Act g u v) (h : u.Inv) (hs : u.Stocked)
    (hfiles : ∀ disk, ¬ g.files u disk) (hp : u.pending = none) (hw : Spares w u) :
    Spares w v where
  born := hw.born.trans (ha.kept h).1
  others p node hn hu := by
    obtain ⟨hpu, hou⟩ := hw.others p node hn hu
    exact ha.spares_others h hfiles hp hpu hou
  own j x hx := by
    obtain ⟨hj, hcase⟩ := hw.own j x hx
    refine ⟨hj, ?_⟩
    rcases hcase with ⟨hu, hsame⟩ | ⟨hu, hpast⟩
    · exact (ha.spares_own h hs hfiles hp hu).imp_left fun ⟨hv, hd⟩ => ⟨hv, hd.trans hsame⟩
    · exact .inr (ha.spares_past h hfiles (Nat.lt_of_lt_of_le hj hw.born) hu hpast)

/-! ## Steps -/

/-- Only the service touches the files. -/
def undisputed : Guard := { Guard.all with files := fun _ _ => False }

/-- And it takes no prepare-upload. -/
def seated : Guard := { undisputed with park := fun _ => False }

omit [Qt] in
theorem considerate_of_never (h : ∀ w disk, ¬ g.files w disk) : Considerate g :=
  fun w disk hf => absurd hf (h w disk)

theorem undisputed_permits {e : Event} (he : ∀ disk, e ≠ .otherFiles disk) :
    Permits undisputed w e :=
  { permits_all w e with
    files := fun disk heq => absurd heq (he disk)
    serves := fun i data hi hc hr => { (permits_all w e).serves i data hi hc hr with } }

theorem seated_permits {e : Event} (he : ∀ disk, e ≠ .otherFiles disk) (hs : w.sessionId ≠ []) :
    Permits seated w e :=
  { permits_all w e with
    files := fun disk heq => absurd heq (he disk)
    serves := fun i data hi hc hr => {
      park := fun ht => ht.idle (.inr (by rwa [hr.sessionId]))
      finish := fun _ _ _ => trivial
      forget := fun _ _ _ => trivial } }

theorem Stocked.step (hs : w.Stocked) (h : w.Inv) (e : Event) : (w.step e).Stocked := by
  by_cases he : ∃ disk, e = .otherFiles disk
  · obtain ⟨disk, rfl⟩ := he
    simp only [World.step]
    split
    · rename_i hall
      refine hs.of_kept fun j u hu => ⟨hu, ?_, rfl⟩
      have hmem := AList.mem_lookup_iff.1 hu
      exact of_decide_eq_true (List.all_eq_true.1 hall _ hmem)
    · exact hs
  · have hacts := step_acts h e (undisputed_permits (not_exists.1 he))
    have hkeep := hacts.keep (P := fun v => v.Inv ∧ v.Stocked) (fun ha hv =>
      ⟨ha.inv hv.1, (ha.fileAct hv.1).stocked hv.1 (considerate_of_never fun _ _ => id) hv.2⟩)
      ⟨h, hs⟩
    exact hkeep.2

omit [Qt] in
theorem Start.stocked (h : w.Start) : w.Stocked := by
  have hnone : ∀ {i u}, w.uploads.lookup i ≠ some u := by
    intro i u hu
    rw [h.uploads, AList.lookup_empty] at hu
    cases hu
  exact ⟨fun _ _ hu => absurd hu hnone, fun _ _ hu => absurd hu hnone,
    fun _ _ _ _ hu => absurd hu hnone, fun _ _ hu => absurd hu hnone⟩

theorem reached_stocked (h : Lib.Reached system w) : w.Stocked := by
  induction h with
  | start hs => exact hs.stocked
  | next e hr _ ih => exact ih.step (reached_inv hr) e

/-- In a session nothing is touched but the part files of the uploads that end. -/
theorem step_spares (h : w.Inv) (hs : w.Stocked) (hsession : w.sessionId ≠ []) {e : Event}
    (he : ∀ disk, e ≠ .otherFiles disk) : Spares w (w.step e) := by
  have hpend : w.pending = none := h.exclusive.resolve_right hsession
  have hacts := step_acts h e (seated_permits he hsession)
  have hkeep := hacts.keep
    (P := fun v => v.Inv ∧ v.Stocked ∧ v.pending = none ∧ Spares w v) ?_ ⟨h, hs, hpend, .refl h⟩
  · exact hkeep.2.2.2
  · rintro u v ha ⟨hi, hst, hp, hsp⟩
    refine ⟨ha.inv hi, (ha.fileAct hi).stocked hi (considerate_of_never fun _ _ => id) hst, ?_,
      ha.spares hi hst (fun _ => id) hp hsp⟩
    rcases (ha.engaged fun _ => id).1 with hv | hv
    · rw [hv, hp]
    · exact hv

/-! ## Where the files come from -/

/-- The system stays as it is within a chain that it is not part of. -/
theorem Act.env (ha : Act g w v) (hg : ¬ g.system) : v.env = w.env := by
  cases ha with
  | outside _ _ he => exact he.resolve_right hg
  | wrote =>
    unfold World.write
    split <;> rfl
  | short =>
    unfold World.write
    split <;> rfl
  | @openSession k directory =>
    obtain ⟨id, d, t, tokens, heq, -⟩ := openSession_eq w k directory
    rw [heq]
    rfl
  | @enter k row path =>
    obtain ⟨d, hd⟩ := entered_eq w k row path { w.conns k with
      sink := some k
      maxBodyBytes := (w.transfer.entry row).size }
    rw [hd]
    rfl
  | @drop k u c error =>
    obtain ⟨d, hd⟩ := dropUpload_eq k u error w
    rw [hd]
    rfl
  | @settle k u =>
    obtain ⟨d, t, l, heq⟩ := settleUpload_eq k u { w with uploads := w.uploads.erase k }
    rw [heq]
  | remember =>
    unfold rememberPeer
    split <;> rfl
  | record =>
    unfold writeHistory
    split <;> rfl
  | _ => rfl

/-- Why there is a file at `p` in `v`, after a chain of acts that began in `w` and completed what `C`
says. -/
inductive Stands (C : QString → Prop) (w v : World) (p : QString) : Prop
  | old {content : QByteArray} : w.disk p = some (.file content) →
      (∀ i u, w.uploads.lookup i = some u → u.partPath ≠ p) → Stands C w v p
  | written {i : ConnId} {u : Upload} : v.uploads.lookup i = some u → u.partPath = p →
      Stands C w v p
  | refused : w.env.removes p = false → Stands C w v p
  | completed : C p → Stands C w v p

omit [Qt] in
theorem Stands.later {C D : QString → Prop} {u : World} {p : QString} (h : Stands C w u p)
    (hC : C p → D p)
    (hup : ∀ i x, u.uploads.lookup i = some x → x.partPath = p → v.uploads.lookup i = some x) :
    Stands D w v p := by
  cases h with
  | old hp hu => exact .old hp hu
  | written hu he => exact .written (hup _ _ hu he) he
  | refused hr => exact .refused hr
  | completed hc => exact .completed (hC hc)

/-- Every file stands for one of these reasons. -/
def Standing (C : QString → Prop) (w v : World) : Prop :=
  v.env = w.env ∧ ∀ p content, v.disk p = some (.file content) → Stands C w v p

omit [Qt] in
theorem Standing.refl (C : QString → Prop) (w : World) : Standing C w w := by
  refine ⟨rfl, fun p content hp => ?_⟩
  by_cases hu : ∃ i u, w.uploads.lookup i = some u ∧ u.partPath = p
  · obtain ⟨i, u, hu, he⟩ := hu
    exact .written hu he
  · exact .old hp fun i u hw he => hu ⟨i, u, hw, he⟩

theorem Act.standing {C : QString → Prop} {u : World} (ha : Act g u v) (h : u.Inv)
    (hfiles : ∀ disk, ¬ g.files u disk) (hsystem : ¬ g.system)
    (hC : ∀ row p, Completed u v row p → C p) (hw : Standing C w u) : Standing C w v := by
  obtain ⟨henv, hfile⟩ := hw
  refine ⟨(ha.env hsystem).trans henv, fun p content hp => ?_⟩
  cases ha.fileAct h with
  | same hup hd _ _ =>
    rw [hd] at hp
    exact (hfile p content hp).later id fun j x hx _ => by rwa [hup]
  | others hd => exact absurd hd (hfiles _)
  | probe _ hv =>
    subst hv
    rcases (prepareDirectory_disk u).1 p content hp with hp | hr
    · exact (hfile p content hp).later id fun _ _ hx _ => hx
    · exact .refused (henv ▸ hr)
  | @enter k row path hadm _ hup hd _ _ _ =>
    by_cases hpp : p = path ++ PartSuffix
    · subst hpp
      refine .written (i := k) (u := ⟨row, k, path ++ PartSuffix, path⟩) ?_ rfl
      rw [hup]
      exact AList.lookup_insert _
    · rw [hd, Function.update_of_ne hpp] at hp
      refine (hfile p content hp).later id fun j x hx _ => ?_
      have hjk : j ≠ k := by
        rintro rfl
        cases hadm.new.symm.trans hx
      rw [hup, AList.lookup_insert_ne hjk, hx]
  | @ends k x hx hup hends _ _ =>
    by_cases hpp : p = x.partPath
    · subst hpp
      rcases hends.part with hn | hr | hdone
      · cases hn.symm.trans hp
      · exact .refused (henv ▸ hr)
      · exact .completed (hC _ _ hdone)
    · rcases hends.elsewhere p hpp with hd | ⟨-, hdone⟩
      · rw [hd] at hp
        refine (hfile p content hp).later id fun j y hy he => ?_
        have hjk : j ≠ k := by
          rintro rfl
          obtain rfl := Option.some.inj (hx.symm.trans hy)
          exact hpp he.symm
        rw [hup, AList.lookup_erase_ne hjk, hy]
      · exact .completed (hC _ _ hdone)

/-- A file was completed under `p`. -/
def HasStored (w : World) (p : QString) : Prop :=
  ∃ i row content, Effect.stored i row p content ∈ w.log

/-- The files that are completed are those of the log. -/
theorem Act.standing_log {u : World} (ha : Act g u v) (h : u.Inv)
    (hfiles : ∀ disk, ¬ g.files u disk) (hsystem : ¬ g.system) (hw : Standing u.HasStored w u) :
    Standing v.HasStored w v := by
  have hgrown : Standing v.HasStored w u := by
    refine ⟨hw.1, fun p content hp => (hw.2 p content hp).later ?_ fun _ _ hx _ => hx⟩
    rintro ⟨i, row, content, hmem⟩
    exact ⟨i, row, content, (ha.grows h).subset hmem⟩
  refine ha.standing h hfiles hsystem (fun row p hdone => ?_) hgrown
  obtain ⟨i, content, hmem⟩ := hdone.mem
  exact ⟨i, row, content, hmem⟩

/-- Only the service is at work: other programs and the system stay as they are. -/
def alone : Guard := { undisputed with system := False }

theorem step_stands (h : w.Inv) {e : Event} (he : ∀ disk, e ≠ .otherFiles disk) {p : QString}
    {content : QByteArray} (hp : (w.step e).disk p = some (.file content)) :
    Stands (w.step e).HasStored w (w.step e) p := by
  by_cases hsys : ∃ env, e = .system env
  · obtain ⟨env, rfl⟩ := hsys
    exact ((Standing.refl w.HasStored w).2 p content hp).later id fun _ _ hx _ => hx
  · have hacts := step_acts (g := alone) h e { permits_all w e with
      system := fun env heq => hsys ⟨env, heq⟩
      files := fun disk heq => absurd heq (he disk)
      serves := fun i data hi hc hr => { (permits_all w e).serves i data hi hc hr with } }
    have hkeep := hacts.keep (P := fun v => v.Inv ∧ Standing v.HasStored w v)
      (fun ha hv => ⟨ha.inv hv.1, ha.standing_log hv.1 (fun _ => id) id hv.2⟩) ⟨h, .refl _ w⟩
    exact hkeep.2.2 p content hp

/-- Why there is a file at `p` after the events of a run that started in `w`. -/
inductive Accounted (w : World) (events : List Event) (p : QString) : Prop
  /-- It was there before. -/
  | before : w.disk p ≠ none → Accounted w events p
  /-- Another program put it there. -/
  | others {before : List Event} {disk : Disk} : before ++ [.otherFiles disk] <+: events →
      disk p ≠ none → Accounted w events p
  /-- An upload in progress writes to it. -/
  | written {i : ConnId} {u : Upload} : (events.foldl step w).uploads.lookup i = some u →
      u.partPath = p → Accounted w events p
  /-- It was completed under this path. -/
  | stored {i : ConnId} {row : Nat} {content : QByteArray} :
      Effect.stored i row p content ∈ (events.foldl step w).log → Accounted w events p
  /-- An event left it there, with nobody to write to it, while the system would not remove it. -/
  | refused {before : List Event} {e : Event} : before ++ [e] <+: events →
      (before.foldl step w).env.removes p = false →
      ((before ++ [e]).foldl step w).disk p ≠ none →
      (∀ i u, ((before ++ [e]).foldl step w).uploads.lookup i = some u → u.partPath ≠ p) →
      Accounted w events p

theorem step_grows (h : w.Inv) (e : Event) : w.log <+: (w.step e).log :=
  (step_acts h e (permits_all w e)).keep (P := fun v => v.Inv ∧ w.log <+: v.log)
    (fun ha hv => ⟨ha.inv hv.1, hv.2.trans (ha.grows hv.1)⟩) ⟨h, List.prefix_rfl⟩ |>.2

/-- Every file on the disk is accounted for. -/
theorem run_accounted (hs : w.Start) (events : List Event) {p : QString} {content : QByteArray}
    (hp : (events.foldl step w).disk p = some (.file content)) : Accounted w events p := by
  induction events using List.reverseRecOn generalizing content with
  | nil => exact .before fun hn => by cases hn.symm.trans hp
  | append_singleton events e ih =>
    have hinv : (events.foldl step w).Inv :=
      reached_inv (Lib.ReachedBy.run_any (S := system) events (.start hs))
    have hfold : (events ++ [e]).foldl step w = (events.foldl step w).step e := by
      rw [List.foldl_append, List.foldl_cons, List.foldl_nil]
    -- what was accounted for before stays so, but for the end of an upload
    have earlier : Accounted w events p →
        (∀ i u, (events.foldl step w).uploads.lookup i = some u → u.partPath = p →
          ((events.foldl step w).step e).uploads.lookup i = some u) →
        Accounted w (events ++ [e]) p := by
      intro hacc hkeep
      cases hacc with
      | before h => exact .before h
      | others hb hd => exact .others (hb.trans (List.prefix_append _ _)) hd
      | written hu he => exact .written (by rw [hfold]; exact hkeep _ _ hu he) he
      | @stored i row content hmem =>
        have hlog : Effect.stored i row p content ∈ ((events ++ [e]).foldl step w).log := by
          rw [hfold]
          exact (step_grows hinv e).subset hmem
        exact .stored hlog
      | refused hb hr hd hu => exact .refused (hb.trans (List.prefix_append _ _)) hr hd hu
    rw [hfold] at hp
    by_cases he : ∃ disk, e = .otherFiles disk
    · obtain ⟨disk, rfl⟩ := he
      simp only [World.step] at hp earlier
      split at hp
      · have hlast : events ++ [.otherFiles disk] <+: events ++ [.otherFiles disk] :=
          List.prefix_rfl
        refine .others hlast fun hn => ?_
        cases hn.symm.trans hp
      · rename_i hno
        refine earlier (ih hp) fun i u hu _ => ?_
        rw [if_neg hno]
        exact hu
    · cases step_stands hinv (not_exists.1 he) hp with
      | old hold hnone => exact earlier (ih hold) fun i u hu hpath => absurd hpath (hnone i u hu)
      | written hu hpath => exact .written (by rw [hfold]; exact hu) hpath
      | completed hc =>
        obtain ⟨i, row, content, hmem⟩ := hc
        exact .stored (by rw [hfold]; exact hmem)
      | refused hr =>
        by_cases hu : ∃ i u, ((events.foldl step w).step e).uploads.lookup i = some u ∧
            u.partPath = p
        · obtain ⟨i, u, hu, hpath⟩ := hu
          exact .written (by rw [hfold]; exact hu) hpath
        · refine .refused List.prefix_rfl hr ?_ fun i u hl hpath => hu ⟨i, u, ?_, hpath⟩
          · rw [hfold, hp]
            exact Option.some_ne_none _
          · rwa [hfold] at hl

/-! ## Completed files -/

omit [Qt] in
theorem probe_not_part {p : QString} (h : ProbeName <:+ p) : ¬ PartSuffix <:+ p := by
  intro hpart
  have hsuffix := List.suffix_of_suffix_length_le hpart h (by decide)
  exact absurd hsuffix (by decide)

/-- Completed files are there, but for one named as the probe, and no upload writes to them. -/
def Finished (w : World) : Prop := ∀ i row p content, Effect.stored i row p content ∈ w.log →
  (w.disk p ≠ none ∨ ProbeName <:+ p) ∧ ∀ j u, w.uploads.lookup j = some u → u.partPath ≠ p

omit [Qt] in
theorem FileAct.finished (ha : FileAct g w v) (hs : w.Stocked)
    (hfiles : ∀ disk, ¬ g.files w disk) (hw : w.Finished) : v.Finished := by
  intro i row p content hmem
  cases ha with
  | same hup hd hold _ =>
    rw [hup, hd]
    exact hw i row p content (hold _ _ _ _ hmem)
  | others hd => exact absurd hd (hfiles _)
  | probe hp hv =>
    subst hv
    obtain ⟨hthere, hother⟩ := hw i row p content hmem
    refine ⟨hthere.elim (fun hn => ?_) .inr, hother⟩
    rcases (prepareDirectory_disk w).2 p hn with hd | hprobe
    · exact .inl (hd ▸ hn)
    · exact .inr hprobe
  | @enter k r path hadm hfree hup hd hold _ _ =>
    obtain ⟨hthere, hother⟩ := hw i row p content (hold _ _ _ _ hmem)
    obtain ⟨-, hpart⟩ := isFree_iff.1 hfree
    have hne : p ≠ path ++ PartSuffix := by
      rintro rfl
      rcases hthere with hn | hprobe
      · exact hn hpart
      · exact probe_not_part hprobe (List.suffix_append _ _)
    refine ⟨by rwa [hd, Function.update_of_ne hne], fun j u hu => ?_⟩
    rw [hup] at hu
    by_cases hj : j = k
    · subst hj
      rw [AList.lookup_insert] at hu
      obtain rfl := Option.some.inj hu
      exact hne.symm
    · rw [AList.lookup_insert_ne hj] at hu
      exact hother j u hu
  | @ends k x hx hup hends _ _ =>
    rcases hends.stored i row p content hmem with hold | ⟨hthere, hpath⟩
    · obtain ⟨hthere, hother⟩ := hw i row p content hold
      refine ⟨?_, fun j u hu => hother j u (lookup_of_erase hup hu).2⟩
      rcases hends.elsewhere p (hother k x hx).symm with hd | ⟨hn, -⟩
      · rwa [hd]
      · exact .inr (hthere.resolve_left fun h => h hn)
    · refine ⟨.inl hthere, fun j u hu => ?_⟩
      obtain ⟨hj, hw'⟩ := lookup_of_erase hup hu
      rcases hpath with rfl | hfree
      · exact fun he => hj (hs.distinct j k u x hw' hx he)
      · rintro rfl
        obtain ⟨c, hc⟩ := hs.there j u hw'
        cases hfree.symm.trans hc

/-- No other process touches the folder. -/
def Undisputed (_ : World) (e : Event) : Prop := ∀ disk, e ≠ .otherFiles disk

theorem reached_finished (h : Lib.ReachedBy system Undisputed w) : w.Finished := by
  have hkeep : w.Inv ∧ w.Stocked ∧ w.Finished := by
    refine h.invariant (I := fun w => w.Inv ∧ w.Stocked ∧ w.Finished)
      (fun w hs => ⟨Start.inv hs, Start.stocked hs, ?_⟩) fun w e hw he => ?_
    · intro i row p content hmem
      rw [hs.log] at hmem
      exact absurd hmem List.not_mem_nil
    · refine (step_acts hw.1 e (undisputed_permits he)).keep
        (P := fun v => v.Inv ∧ v.Stocked ∧ v.Finished) (fun ha hv => ?_) hw
      have hf := ha.fileAct hv.1
      exact ⟨ha.inv hv.1, hf.stocked hv.1 (considerate_of_never fun _ _ => id) hv.2.1,
        hf.finished hv.2.1 (fun _ => id) hv.2.2⟩
  exact hkeep.2.2

/-- In every state of every run in which no other process touches the folder: no two uploads write
to the same file, nor does one write to a completed file; in a session a file is left as it is until
it is the part file of an upload that ends; and every file is accounted for, so that once the
session is over what an upload has written is gone, or is recorded as completed, or could not be
removed. -/
theorem uploads_never_clobber {w₀ : World} (hs : w₀.Start) {events : List Event}
    (ha : Lib.Allowed system Undisputed w₀ events) :
    let w := events.foldl step w₀
    (∀ i j u u', w.uploads.lookup i = some u → w.uploads.lookup j = some u' →
      u.partPath = u'.partPath → i = j) ∧
    (∀ i u k row path content, w.uploads.lookup i = some u →
      Effect.stored k row path content ∈ w.log → u.partPath ≠ path) ∧
    (w.sessionId ≠ [] → ∀ e, w.Undisputed e → ∀ p node, w.disk p = some node →
      (w.step e).disk p = some node ∨
        ∃ i u, w.uploads.lookup i = some u ∧ u.partPath = p ∧
          (w.step e).uploads.lookup i = none) ∧
    (∀ p content, w.disk p = some (.file content) → Accounted w₀ events p) ∧
    (w.sessionId = [] → ∀ i, w.uploads.lookup i = none) := by
  intro w
  have hreached : Lib.ReachedBy system Undisputed w := .run events (.start hs) ha
  have hinv := reached_inv hreached.reached
  have hstocked := reached_stocked hreached.reached
  refine ⟨hstocked.distinct, fun i u k row path content hu hmem => ?_, fun hne e he p node hp => ?_,
    fun p content hp => run_accounted hs events hp, fun hnone i => hinv.no_uploads hnone i⟩
  · exact (reached_finished hreached k row path content hmem).2 i u hu
  · have hspares := step_spares hinv hstocked hne he
    by_cases hown : ∃ i u, w.uploads.lookup i = some u ∧ u.partPath = p
    · obtain ⟨i, u, hu, rfl⟩ := hown
      rcases (hspares.own i u hu).2 with ⟨-, hsame⟩ | ⟨hgone, -⟩
      · exact .inl (hsame.trans hp)
      · exact .inr ⟨i, u, hu, rfl, hgone⟩
    · exact .inl (hspares.others p node hp fun i u hu he' => hown ⟨i, u, hu, he'⟩).1

end

/-! ## Runs -/

section

local instance leftQt : Qt := Ascii.qt [(Ascii.json oneFile, oneFile)] []

/-- The first bytes of the upload are in when the system stops removing files, and the peer goes. -/
def leftEvents : List Event := [
  .startListening,
  .connect (str "10.0.0.2") none,
  .readyRead 0 (post prepareTarget (Ascii.json oneFile)),
  .connect (str "10.0.0.2") none,
  .readyRead 1 helloUpload.dropLast,
  .system { Env.obliging with removes := fun _ => false },
  .disconnected 1,
  .cancel]

/-- The file was completed under this path. -/
def isStored (path : QString) : Effect → Bool
  | .stored _ _ p _ => p = path
  | _ => false

theorem left_undisputed : Lib.Allowed system Undisputed helloStart leftEvents :=
  ⟨nofun, nofun, nofun, nofun, nofun, nofun, nofun, nofun, trivial⟩

/-- A part file that the system would not remove outlives the session. -/
theorem part_file_left : Lib.Allowed system Undisputed helloStart leftEvents ∧
    let w := leftEvents.foldl step helloStart
    helloStart.disk (str "/d/a.txt.part") = none ∧ w.sessionId = [] ∧
      w.disk (str "/d/a.txt.part") = some (.file (ascii "hell")) ∧
      w.disk (str "/d/a.txt") = none ∧ w.log.all (!isStored (str "/d/a.txt.part") ·) :=
  ⟨left_undisputed, by decide +kernel⟩

/-- While the upload is on its way its part file is its own, and at the end it is accounted for. -/
theorem left_accounted :
    (let w := (leftEvents.take 5).foldl step helloStart
    w.disk (str "/d/a.txt.part") = some (.file []) ∧
      ∀ data, (w.step (.readyRead 1 data)).disk (str "/d/a.txt.part") = some (.file []) ∨
        ∃ i u, w.uploads.lookup i = some u ∧ u.partPath = str "/d/a.txt.part" ∧
          (w.step (.readyRead 1 data)).uploads.lookup i = none) ∧
    Accounted helloStart leftEvents (str "/d/a.txt.part") := by
  have hpart : ((leftEvents.take 5).foldl step helloStart).disk (str "/d/a.txt.part") =
      some (.file []) := by decide +kernel
  have hsession : ((leftEvents.take 5).foldl step helloStart).sessionId ≠ [] := by decide +kernel
  have hleft : (leftEvents.foldl step helloStart).disk (str "/d/a.txt.part") =
      some (.file (ascii "hell")) := by decide +kernel
  have hearly : Lib.Allowed system Undisputed helloStart (leftEvents.take 5) :=
    ⟨nofun, nofun, nofun, nofun, nofun, trivial⟩
  have hmid := (uploads_never_clobber helloStart_start hearly).2.2.1 hsession
  have hend := (uploads_never_clobber helloStart_start left_undisputed).2.2.2.1
  exact ⟨⟨hpart, fun data => hmid (.readyRead 1 data) nofun _ _ hpart⟩, hend _ _ hleft⟩

end

end World

end LocalSend
