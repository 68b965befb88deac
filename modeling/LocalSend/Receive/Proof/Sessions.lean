import LocalSend.Receive.Proof.Steps

/-!
# No session is opened twice

The id of a session is drawn from the random source, like the tokens, each by a later request than
the one before it (`Dealt`). Where the source has not repeated itself (`Crypto.Unrepeated`), a
session was opened for one prepare-upload (`Dealt.unique`).
-/

set_option autoImplicit false

namespace LocalSend

/-- No two of the first `n` tokens are the same. -/
def Crypto.Unrepeated (source : Crypto.Random) (n : Nat) : Prop := ∀ j < n, ∀ k < n,
  Crypto.generateToken source j ≠ [] →
    Crypto.generateToken source j = Crypto.generateToken source k → j = k

def Effect.issued? : Effect → Option QString
  | .issued id _ _ => some id
  | _ => none

namespace World

/-- The ids of the sessions were drawn, one after the other. -/
def Dealt (w : World) : Prop := ∃ ks : List Nat,
  w.log.filterMap Effect.issued? = ks.map (Crypto.generateToken w.random) ∧
    ks.Pairwise (· < ·) ∧ ∀ k ∈ ks, k < w.drawn

/-- What a step draws from the source: no session id, or the next one. -/
inductive Deals (w v : World) : Prop
  | keeps (l : List Effect) : v.random = w.random → w.drawn ≤ v.drawn → v.log = w.log ++ l →
      (∀ e ∈ l, e.issued? = none) → Deals w v
  | issues (address : QString) (tokens : AList fun _ : QString => QString) (l : List Effect) :
      v.random = w.random → w.drawn < v.drawn →
      v.log = w.log ++ .issued (Crypto.generateToken w.random w.drawn) address tokens :: l →
      (∀ e ∈ l, e.issued? = none) → Deals w v

variable {w v : World}

theorem Deals.random (hd : Deals w v) : v.random = w.random := by
  cases hd <;> assumption

theorem Deals.drawn (hd : Deals w v) : w.drawn ≤ v.drawn := by
  cases hd with
  | keeps _ _ hdrawn => exact hdrawn
  | issues _ _ _ _ hdrawn => exact Nat.le_of_lt hdrawn

theorem Dealt.deals (h : w.Dealt) (hd : Deals w v) : v.Dealt := by
  obtain ⟨ks, hks, hsorted, hlt⟩ := h
  have hle := hd.drawn
  cases hd with
  | keeps l hrandom hdrawn hlog hl =>
    refine ⟨ks, ?_, hsorted, fun k hk => Nat.lt_of_lt_of_le (hlt k hk) hdrawn⟩
    rw [hlog, List.filterMap_append, List.filterMap_eq_nil_iff.2 hl, List.append_nil, hks, hrandom]
  | issues address tokens l hrandom hdrawn hlog hl =>
    refine ⟨ks ++ [w.drawn], ?_, ?_, fun k hk => ?_⟩
    · rw [hlog, List.filterMap_append, hks, hrandom, List.map_append]
      exact congrArg (_ ++ _ :: ·) (List.filterMap_eq_nil_iff.2 hl)
    · rw [List.pairwise_append]
      refine ⟨hsorted, List.pairwise_singleton _ _, fun k hk k' hk' => ?_⟩
      rw [List.mem_singleton.1 hk']
      exact hlt k hk
    · rcases List.mem_append.1 hk with hk | hk
      · exact Nat.lt_of_lt_of_le (hlt k hk) hle
      · rw [List.mem_singleton.1 hk]
        exact hdrawn

theorem Dealt.drawn (h : w.Dealt) {id : QString} (hid : id ∈ w.log.filterMap Effect.issued?) :
    ∃ k < w.drawn, id = Crypto.generateToken w.random k := by
  obtain ⟨ks, hks, -, hlt⟩ := h
  rw [hks] at hid
  obtain ⟨k, hk, heq⟩ := List.mem_map.1 hid
  exact ⟨k, hlt k hk, heq.symm⟩

theorem Dealt.once (h : w.Dealt) (hr : Crypto.Unrepeated w.random w.drawn) :
    (w.log.filterMap Effect.issued?).Pairwise fun id id' => id ≠ [] → id ≠ id' := by
  obtain ⟨ks, hks, hsorted, hlt⟩ := h
  rw [hks, List.pairwise_map]
  refine hsorted.imp_of_mem fun hj hk hjk hne heq => ?_
  exact absurd (hr _ (hlt _ hj) _ (hlt _ hk) hne heq) (Nat.ne_of_lt hjk)

/-- A session is told from the others by its id. -/
theorem Dealt.unique (h : w.Dealt) (hr : Crypto.Unrepeated w.random w.drawn) {id : QString}
    (hne : id ≠ []) {tokens tokens' : AList fun _ : QString => QString} {i j : ConnId}
    (hi : Log.Issued w.log id tokens i) (hj : Log.Issued w.log id tokens' j) : i = j := by
  obtain ⟨pre, address, post, a, hlog, ha, rfl⟩ := hi
  obtain ⟨pre', address', post', a', hlog', ha', rfl⟩ := hj
  have honce := h.once hr
  -- Of two entries with this id one would stand before the other.
  have apart : ∀ {l₁ l₂ l₃ : List Effect} {address₁ address₂ : QString}
      {tokens₁ tokens₂ : AList fun _ : QString => QString},
      w.log ≠ l₁ ++ .issued id address₁ tokens₁ :: (l₂ ++ .issued id address₂ tokens₂ :: l₃) := by
    intro l₁ l₂ l₃ address₁ address₂ tokens₁ tokens₂ heq
    rw [heq, List.filterMap_append, List.pairwise_append] at honce
    refine (List.pairwise_cons.1 honce.2.1).1 id ?_ hne rfl
    exact List.mem_filterMap.2 ⟨_, List.mem_append_right _ List.mem_cons_self, rfl⟩
  rcases List.append_eq_append_iff.1 (hlog.symm.trans hlog') with ⟨l, hpre, hpost⟩ | ⟨l, hpre, hpost⟩
  · cases l with
    | nil =>
      rw [List.append_nil] at hpre
      subst hpre
      rw [Option.some.inj (ha.symm.trans ha')]
    | cons e l =>
      obtain ⟨rfl, rfl⟩ := List.cons.inj hpost
      exact absurd hlog apart
  · cases l with
    | nil =>
      rw [List.append_nil] at hpre
      subst hpre
      rw [Option.some.inj (ha.symm.trans ha')]
    | cons e l =>
      obtain ⟨rfl, rfl⟩ := List.cons.inj hpost
      exact absurd hlog' apart

section
variable [Qt] {g : Guard}

theorem Act.deals (ha : Act g w v) (h : w.Inv) : Deals w v := by
  have silent : ∀ {v : World}, v.random = w.random → w.drawn ≤ v.drawn → v.log = w.log → Deals w v :=
    fun hr hd hl => .keeps [] hr hd (by rw [hl, List.append_nil]) fun _ he =>
      absurd he List.not_mem_nil
  have one : ∀ {v : World} {e : Effect}, v.random = w.random → v.drawn = w.drawn →
      v.log = w.log ++ [e] → e.issued? = none → Deals w v := by
    intro v e hr hd hl he
    refine .keeps [e] hr (Nat.le_of_eq hd.symm) hl fun e' hmem => ?_
    rwa [List.mem_singleton.1 hmem]
  have two : ∀ {v : World} {e e' : Effect}, v.random = w.random → v.drawn = w.drawn →
      v.log = w.log ++ [e] ++ [e'] → e.issued? = none → e'.issued? = none → Deals w v := by
    intro v e e' hr hd hl he he'
    refine .keeps [e, e'] hr (Nat.le_of_eq hd.symm) (hl.trans (List.append_assoc _ _ _))
      fun d hmem => ?_
    rcases List.mem_pair.1 hmem with rfl | rfl
    · exact he
    · exact he'
  cases ha with
  | outside _ hd => exact silent rfl hd rfl
  | wrote =>
    unfold World.write
    split
    · exact silent rfl (Nat.le_refl _) rfl
    · exact one rfl rfl rfl rfl
  | short =>
    unfold World.write
    split
    · exact silent rfl (Nat.le_refl _) rfl
    · exact one rfl rfl rfl rfl
  | park => exact one rfl rfl rfl rfl
  | prompt => exact one rfl rfl rfl rfl
  | @openSession i directory =>
    obtain ⟨id, d, t, tokens, heq, rfl, hd, -⟩ := openSession_eq w i directory
    rw [heq]
    refine .issues (w.conns i).peerAddress tokens [.started] rfl hd (List.append_assoc _ _ _)
      fun e he => ?_
    rw [List.mem_singleton.1 he]
    rfl
  | @enter i row path =>
    obtain ⟨d, hd⟩ := entered_eq w i row path { w.conns i with
      sink := some i
      maxBodyBytes := (w.transfer.entry row).size }
    rw [hd]
    exact two rfl rfl rfl rfl rfl
  | mark => exact one rfl rfl rfl rfl
  | @drop i u c error =>
    obtain ⟨d, hd⟩ := dropUpload_eq i u error w
    rw [hd]
    exact one rfl rfl rfl rfl
  | @settle i u hu =>
    have hs := h.served i u hu
    obtain ⟨f, hf, hp, -⟩ := hs.handle
    obtain ⟨d, ⟨status, error, -, heq⟩ | ⟨path, content, -, -, -, -, heq⟩⟩ :=
      settleUpload_spec (w := { w with uploads := w.uploads.erase i }) i (hs.file.symm ▸ hf) hp
    · rw [heq]
      exact one rfl rfl rfl rfl
    · rw [heq]
      exact two rfl rfl rfl rfl rfl
  | remember =>
    unfold rememberPeer
    split
    · exact one rfl rfl rfl rfl
    · exact silent rfl (Nat.le_refl _) rfl
  | record =>
    unfold writeHistory
    split
    · exact one rfl rfl rfl rfl
    · exact silent rfl (Nat.le_refl _) rfl
  | finish => exact two rfl rfl rfl rfl rfl
  | posted => exact one rfl rfl rfl rfl
  | _ => exact silent rfl (Nat.le_refl _) rfl

theorem Dealt.step (hw : w.Dealt) (h : w.Inv) (e : Event) : (w.step e).Dealt :=
  ((step_acts h e (permits_all w e)).keep (P := fun v => v.Inv ∧ v.Dealt)
    (fun ha hv => ⟨ha.inv hv.1, hv.2.deals (ha.deals hv.1)⟩) ⟨h, hw⟩).2

/-- The source stays the same, and what was drawn stays drawn. -/
theorem step_drawn (h : w.Inv) (e : Event) :
    (w.step e).random = w.random ∧ w.drawn ≤ (w.step e).drawn := by
  refine ((step_acts h e (permits_all w e)).keep
    (P := fun v => v.Inv ∧ v.random = w.random ∧ w.drawn ≤ v.drawn) (fun ha hv => ?_)
    ⟨h, rfl, Nat.le_refl _⟩).2
  have hd := ha.deals hv.1
  exact ⟨ha.inv hv.1, hd.random.trans hv.2.1, Nat.le_trans hv.2.2 hd.drawn⟩

omit [Qt] in
theorem Start.dealt (h : w.Start) : w.Dealt := by
  refine ⟨[], ?_, .nil, nofun⟩
  rw [h.log]
  rfl

end

end World

end LocalSend
