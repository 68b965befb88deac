import LocalSend.Core.RateLimiter
import LocalSend.Lib.Run

/-!
# One address at a time

What the limiter answers for an address is read off the entry that a prune would leave it
(`RateLimiter.current`), and a call about another address does not change that entry. So a run
answers an address as the run of its own calls alone does (`answers_own`), unless one of its
failures finds the table full of others: that one is not recorded.
-/

set_option autoImplicit false

namespace LocalSend

namespace RateLimiter

inductive Op
  | allow
  | retryAfter
  | recordFailure
  | recordSuccess
deriving DecidableEq

structure Call where
  now : Nat
  key : QString
  op : Op
deriving DecidableEq

inductive Answer
  | allowed (yes : Bool)
  | seconds (n : Nat)
  | done
deriving DecidableEq

def step (r : RateLimiter) (c : Call) : RateLimiter :=
  match c.op with
  | .allow | .retryAfter => r
  | .recordFailure => r.recordFailure c.now c.key
  | .recordSuccess => r.recordSuccess c.key

def answer (r : RateLimiter) (c : Call) : Answer :=
  match c.op with
  | .allow => .allowed (r.allow c.now c.key)
  | .retryAfter => .seconds (r.retryAfter c.now c.key)
  | .recordFailure | .recordSuccess => .done

/-- A limiter from its construction on. -/
def system : Lib.System RateLimiter Call := ⟨(· = ⟨∅⟩), step⟩

/-- What the calls about `key` are answered. -/
def answers (key : QString) : RateLimiter → List Call → List Answer
  | _, [] => []
  | r, c :: calls =>
    if c.key = key then r.answer c :: answers key (r.step c) calls
    else answers key (r.step c) calls

/-! ## The entry of one address -/

/-- Idle past the window, so that a prune drops it. -/
def Entry.isStale (now : Nat) (e : Entry) : Bool :=
  e.blockedUntil ≠ 0 && now > e.blockedUntil + ForgetAfterMs

/-- What a prune leaves of an entry. -/
def unexpired (now : Nat) : Option Entry → Option Entry
  | none => none
  | some e => if e.isStale now then none else some e

theorem unexpired_idem (now : Nat) (o : Option Entry) :
    unexpired now (unexpired now o) = unexpired now o := by
  cases o with
  | none => rfl
  | some e => cases hs : e.isStale now <;> simp [unexpired, hs]

/-- A stale entry stays so. -/
theorem unexpired_mono {now later : Nat} (hle : now ≤ later) (o : Option Entry) :
    unexpired later (unexpired now o) = unexpired later o := by
  cases o with
  | none => rfl
  | some e =>
    cases hs : e.isStale now with
    | false => simp [unexpired, hs]
    | true =>
      have hlater : e.isStale later = true := by
        simp only [Entry.isStale, Bool.and_eq_true, decide_eq_true_eq] at hs ⊢
        omega
      simp [unexpired, hs, hlater]

/-- The entry of `key` that a prune leaves. -/
def current (r : RateLimiter) (now : Nat) (key : QString) : Option Entry :=
  unexpired now (r.entries.lookup key)

/-- One turn of the loop in `prune`. -/
def pruneKey (now : Nat) (entries : AList fun _ : QString => Entry) (key : QString) :
    AList fun _ : QString => Entry :=
  match entries.lookup key with
  | some e => if e.blockedUntil ≠ 0 ∧ now > e.blockedUntil + ForgetAfterMs then entries.erase key
      else entries
  | none => entries

theorem lookup_pruneKey (now : Nat) (entries : AList fun _ : QString => Entry)
    (key other : QString) : (pruneKey now entries key).lookup other =
      if other = key then unexpired now (entries.lookup other) else entries.lookup other := by
  unfold pruneKey
  by_cases h : other = key
  · subst h
    rw [if_pos rfl]
    cases hl : entries.lookup other with
    | none => simp [hl, unexpired]
    | some e =>
      by_cases hs : e.blockedUntil ≠ 0 ∧ now > e.blockedUntil + ForgetAfterMs
      · have hstale : e.isStale now = true := by simpa [Entry.isStale] using hs
        simp [hs, unexpired, hstale]
      · have hstale : e.isStale now = false := by simpa [Entry.isStale] using hs
        simp only [if_neg hs, hl, unexpired, hstale]
        rfl
  · rw [if_neg h]
    cases entries.lookup key with
    | none => rfl
    | some e =>
      simp only
      split
      · exact AList.lookup_erase_ne h
      · rfl

theorem lookup_prune (r : RateLimiter) (now : Nat) (key : QString) :
    (r.prune now).entries.lookup key = r.current now key := by
  have hfold : ∀ (keys : List QString) (m : AList fun _ : QString => Entry),
      (keys.foldl (pruneKey now) m).lookup key =
        if key ∈ keys then unexpired now (m.lookup key) else m.lookup key := by
    intro keys
    induction keys with
    | nil =>
      intro m
      rfl
    | cons x keys ih =>
      intro m
      rw [List.foldl_cons, ih, lookup_pruneKey]
      by_cases hx : key = x
      · simp [hx, unexpired_idem]
      · simp [hx]
  have hprune : (r.prune now).entries = r.entries.keys.foldl (pruneKey now) r.entries := rfl
  rw [hprune, hfold]
  split
  · rfl
  · rename_i hk
    rw [current, AList.lookup_eq_none.2 hk]
    rfl

theorem current_mono {r s : RateLimiter} {key : QString} {now later : Nat} (hle : now ≤ later)
    (h : r.current now key = s.current now key) : r.current later key = s.current later key := by
  have hlater := congrArg (unexpired later) h
  simpa only [current, unexpired_mono hle] using hlater

/-! ## What a call does to it -/

/-- What is answered is read off the current entry: a stale one blocks no more. -/
theorem allow_eq (r : RateLimiter) (now : Nat) (key : QString) : r.allow now key =
    match r.current now key with
    | none => true
    | some e => decide (e.blockedUntil ≤ now) := by
  unfold allow current
  cases hl : r.entries.lookup key with
  | none => rfl
  | some e =>
    cases hs : e.isStale now with
    | false => simp [unexpired, hs]
    | true =>
      simp only [unexpired, hs, if_true, decide_eq_true_eq]
      simp only [Entry.isStale, Bool.and_eq_true, decide_eq_true_eq] at hs
      omega

theorem retryAfter_eq (r : RateLimiter) (now : Nat) (key : QString) : r.retryAfter now key =
    match r.current now key with
    | none => 0
    | some e => (e.blockedUntil - now + 999) / 1000 := by
  unfold retryAfter current
  cases hl : r.entries.lookup key with
  | none => rfl
  | some e =>
    cases hs : e.isStale now with
    | false => simp [unexpired, hs]
    | true =>
      simp only [unexpired, hs, if_true]
      simp only [Entry.isStale, Bool.and_eq_true, decide_eq_true_eq] at hs
      omega

theorem answer_eq {r s : RateLimiter} {c : Call}
    (h : r.current c.now c.key = s.current c.now c.key) : r.answer c = s.answer c := by
  unfold answer
  cases c.op with
  | allow => simp only [allow_eq, h]
  | retryAfter => simp only [retryAfter_eq, h]
  | recordFailure => rfl
  | recordSuccess => rfl

/-- A failure of `key` finds an entry for it, or room for one. -/
def HasRoom (key : QString) (r : RateLimiter) (c : Call) : Prop :=
  c.key = key → c.op = .recordFailure →
    key ∈ (r.prune c.now).entries ∨ (r.prune c.now).entries.entries.length < MaxEntries

instance (key : QString) (r : RateLimiter) (c : Call) : Decidable (HasRoom key r c) :=
  inferInstanceAs (Decidable (_ → _))

/-- An entry after one more failure. -/
def Entry.failed (now : Nat) (e : Entry) : Entry :=
  let e := { e with failures := e.failures + 1 }
  if e.failures ≤ FreeAttempts then e else { e with blockedUntil := now + backoff e.failures }

theorem lookup_recordFailure {r : RateLimiter} {now : Nat} {key : QString}
    (hroom : key ∈ (r.prune now).entries ∨ (r.prune now).entries.entries.length < MaxEntries) :
    (r.recordFailure now key).entries.lookup key =
      some (((r.current now key).getD {}).failed now) := by
  have hstay : ¬ (key ∉ (r.prune now).entries ∧
      (r.prune now).entries.entries.length ≥ MaxEntries) := by
    rintro ⟨hk, hfull⟩
    rcases hroom with h | h
    · exact hk h
    · omega
  unfold recordFailure
  simp only [if_neg hstay, AList.lookup_insert, lookup_prune]
  rfl

/-- A failure of another address leaves the current entry. -/
theorem current_recordFailure {r : RateLimiter} {now : Nat} {key other : QString}
    (h : other ≠ key) : (r.recordFailure now key).current now other = r.current now other := by
  unfold recordFailure
  simp only
  split
  · rw [current, lookup_prune, current, unexpired_idem]
  · rw [current, AList.lookup_insert_ne h, lookup_prune, current, unexpired_idem]

theorem current_step_other {r : RateLimiter} {c : Call} {key : QString} (h : c.key ≠ key) :
    (r.step c).current c.now key = r.current c.now key := by
  unfold step
  cases c.op with
  | allow => rfl
  | retryAfter => rfl
  | recordFailure => exact current_recordFailure h.symm
  | recordSuccess =>
    simp only [recordSuccess, current]
    rw [AList.lookup_erase_ne h.symm]

theorem current_step_own {r s : RateLimiter} {c : Call}
    (hr : HasRoom c.key r c) (hs : HasRoom c.key s c)
    (h : r.current c.now c.key = s.current c.now c.key) :
    (r.step c).current c.now c.key = (s.step c).current c.now c.key := by
  unfold step
  cases hop : c.op with
  | allow => exact h
  | retryAfter => exact h
  | recordFailure =>
    simp only [current]
    rw [lookup_recordFailure (hr rfl hop), lookup_recordFailure (hs rfl hop), h]
  | recordSuccess =>
    simp only [recordSuccess, current]
    rw [AList.lookup_erase, AList.lookup_erase]

/-! ## Runs -/

/-- No other address is in the table. -/
def Own (key : QString) (r : RateLimiter) : Prop :=
  ∀ other, other ≠ key → r.entries.lookup other = none

theorem Own.prune {key : QString} {r : RateLimiter} (h : r.Own key) (now : Nat) :
    (r.prune now).Own key := by
  intro other ho
  rw [lookup_prune, current, h other ho]
  rfl

theorem Own.hasRoom {key : QString} {r : RateLimiter} (h : r.Own key) (c : Call) :
    HasRoom key r c := by
  intro _ _
  by_cases hk : key ∈ (r.prune c.now).entries
  · exact .inl hk
  · refine .inr ?_
    have hempty : (r.prune c.now).entries.entries = [] := by
      refine List.eq_nil_iff_forall_not_mem.2 fun e he => ?_
      have hmem : e.1 ∈ (r.prune c.now).entries := List.mem_map_of_mem he
      by_cases hek : e.1 = key
      · exact hk (hek ▸ hmem)
      · exact AList.lookup_eq_none.1 (h.prune c.now e.1 hek) hmem
    rw [hempty]
    decide

theorem Own.step {r : RateLimiter} {c : Call} (h : r.Own c.key) : (r.step c).Own c.key := by
  unfold RateLimiter.step
  cases c.op with
  | allow => exact h
  | retryAfter => exact h
  | recordFailure =>
    intro other ho
    simp only [recordFailure]
    split
    · exact h.prune c.now other ho
    · rw [AList.lookup_insert_ne ho]
      exact h.prune c.now other ho
  | recordSuccess =>
    intro other ho
    simp only [recordSuccess]
    rw [AList.lookup_erase_ne ho]
    exact h other ho

/-- A run with room for `key` answers it as its own calls alone are answered. -/
theorem answers_own {key : QString} {calls : List Call} {r s : RateLimiter} {now : Nat}
    (hsorted : calls.Pairwise fun c d => c.now ≤ d.now) (hnow : ∀ c ∈ calls, now ≤ c.now)
    (hroom : Lib.Allowed system (HasRoom key) r calls) (hown : s.Own key)
    (h : r.current now key = s.current now key) :
    answers key r calls = answers key s (calls.filter fun c => c.key = key) := by
  induction calls generalizing r s now with
  | nil => rfl
  | cons c calls ih =>
    obtain ⟨hle, hsorted⟩ := List.pairwise_cons.1 hsorted
    have h : r.current c.now key = s.current c.now key := current_mono (hnow c (.head _)) h
    by_cases hk : c.key = key
    · subst hk
      rw [List.filter_cons_of_pos (by simp), answers, answers, if_pos rfl, if_pos rfl,
        answer_eq h]
      exact congrArg _ (ih hsorted hle hroom.2 hown.step
        (current_step_own hroom.1 (hown.hasRoom c) h))
    · rw [List.filter_cons_of_neg (by simpa using hk), answers, if_neg hk]
      exact ih hsorted hle hroom.2 hown ((current_step_other hk).trans h)

/-- Two runs with the same calls about an address answer it alike, if neither finds the table full
at one of its failures. -/
theorem throttling_independent {key : QString} {calls calls' : List Call}
    (hsorted : calls.Pairwise fun c d => c.now ≤ d.now)
    (hsorted' : calls'.Pairwise fun c d => c.now ≤ d.now)
    (hroom : Lib.Allowed system (HasRoom key) ⟨∅⟩ calls)
    (hroom' : Lib.Allowed system (HasRoom key) ⟨∅⟩ calls')
    (hsame : calls.filter (fun c => c.key = key) = calls'.filter fun c => c.key = key) :
    answers key ⟨∅⟩ calls = answers key ⟨∅⟩ calls' := by
  have hempty : Own key ⟨∅⟩ := fun _ _ => rfl
  have hown := answers_own hsorted (fun c _ => Nat.zero_le c.now) hroom hempty rfl
  have hown' := answers_own hsorted' (fun c _ => Nat.zero_le c.now) hroom' hempty rfl
  rw [hown, hown', hsame]

def guesses : List Call :=
  List.replicate 4 ⟨0, str "me", .recordFailure⟩ ++ [⟨0, str "me", .allow⟩]

theorem guesses_independent : answers (str "me") ⟨∅⟩ (⟨0, str "you", .recordFailure⟩ :: guesses) =
    answers (str "me") ⟨∅⟩ guesses := by
  refine throttling_independent (by decide) (by decide) ?_ ?_ (by decide)
  · exact ⟨by decide +kernel, by decide +kernel, by decide +kernel, by decide +kernel,
      by decide +kernel, by decide +kernel, trivial⟩
  · exact ⟨by decide +kernel, by decide +kernel, by decide +kernel, by decide +kernel,
      by decide +kernel, trivial⟩

/-! ## A full table -/

/-- Every address failed once. -/
def Once (r : RateLimiter) : Prop :=
  ∀ key e, r.entries.lookup key = some e → e = { failures := 1, blockedUntil := 0 }

/-- Addresses that failed once are never forgotten. -/
theorem Once.prune {r : RateLimiter} (h : r.Once) (now : Nat) : r.prune now = r := by
  have hkeep : ∀ key, pruneKey now r.entries key = r.entries := by
    intro key
    unfold pruneKey
    cases hl : r.entries.lookup key with
    | none => rfl
    | some e =>
      simp [h key e hl]
  exact congrArg RateLimiter.mk (List.foldl_fixed' hkeep r.entries.keys)

/-- One more address that fails for the first time. -/
theorem Once.fail {r : RateLimiter} (h : r.Once) {key : QString} (hk : key ∉ r.entries)
    (hroom : r.entries.entries.length < MaxEntries) :
    (r.recordFailure 0 key).Once ∧
      (r.recordFailure 0 key).entries.keys = key :: r.entries.keys := by
  have heq : r.recordFailure 0 key =
      ⟨r.entries.insert key { failures := 1, blockedUntil := 0 }⟩ := by
    have hstay : ¬ (key ∉ r.entries ∧ r.entries.entries.length ≥ MaxEntries) := by omega
    unfold recordFailure
    simp only [h.prune, if_neg hstay, AList.lookup_eq_none.2 hk]
    rfl
  rw [heq]
  refine ⟨fun other e he => ?_, ?_⟩
  · by_cases ho : other = key
    · subst ho
      rw [AList.lookup_insert] at he
      exact (Option.some.inj he).symm
    · rw [AList.lookup_insert_ne ho] at he
      exact h other e he
  · show (r.entries.insert key _).entries.keys = _
    rw [AList.entries_insert_of_notMem hk]
    rfl

/-- A crowd of addresses, none seen before, that fail once each and fit into the table. -/
theorem Once.crowd {keys : List QString} {r : RateLimiter} (h : r.Once)
    (hnodup : (keys ++ r.entries.keys).Nodup)
    (hfits : keys.length + r.entries.keys.length ≤ MaxEntries) :
    (keys.foldl (fun r key => r.recordFailure 0 key) r).Once ∧
      (keys.foldl (fun r key => r.recordFailure 0 key) r).entries.keys =
        keys.reverse ++ r.entries.keys := by
  induction keys generalizing r with
  | nil => exact ⟨h, rfl⟩
  | cons key keys ih =>
    rw [List.cons_append, List.nodup_cons] at hnodup
    obtain ⟨hfresh, hnodup⟩ := hnodup
    rw [List.length_cons] at hfits
    have hk : key ∉ r.entries := fun hk => hfresh (List.mem_append_right _ hk)
    have hlen : r.entries.entries.length = r.entries.keys.length := by
      simp [AList.keys, List.keys]
    obtain ⟨honce, hkeys⟩ := h.fail hk (by omega)
    have hnodup' : (keys ++ (r.recordFailure 0 key).entries.keys).Nodup := by
      rw [hkeys]
      exact List.nodup_middle.2 (List.nodup_cons.2 ⟨hfresh, hnodup⟩)
    have hfits' : keys.length + (r.recordFailure 0 key).entries.keys.length ≤ MaxEntries := by
      rw [hkeys, List.length_cons]
      omega
    obtain ⟨h1, h2⟩ := ih honce hnodup' hfits'
    rw [List.foldl_cons]
    refine ⟨h1, ?_⟩
    rw [h2, hkeys]
    simp

/-- Into a full table no new address comes. -/
theorem Once.full {r : RateLimiter} (h : r.Once) {key : QString} (hk : key ∉ r.entries)
    (hfull : r.entries.keys.length = MaxEntries) : r.recordFailure 0 key = r := by
  have hlen : r.entries.entries.length = r.entries.keys.length := by
    simp [AList.keys, List.keys]
  unfold recordFailure
  simp only [h.prune]
  rw [if_pos ⟨hk, by omega⟩]

theorem answers_others {key : QString} {others calls : List Call} {r : RateLimiter}
    (h : ∀ c ∈ others, c.key ≠ key) :
    answers key r (others ++ calls) = answers key (others.foldl step r) calls := by
  induction others generalizing r with
  | nil => rfl
  | cons c others ih =>
    rw [List.cons_append, answers, if_neg (h c (.head _)), List.foldl_cons]
    exact ih fun d hd => h d (.tail _ hd)

/-- As many addresses as the table holds. -/
def crowd : List QString := (List.range MaxEntries).map fun n => [UInt16.ofNat n]

theorem crowd_nodup : crowd.Nodup := by
  refine List.Nodup.map_on (fun n hn m hm h => ?_) List.nodup_range
  have hn : n < MaxEntries := List.mem_range.1 hn
  have hm : m < MaxEntries := List.mem_range.1 hm
  have hnat := congrArg UInt16.toNat (List.singleton_inj.1 h)
  rw [UInt16.toNat_ofNat', UInt16.toNat_ofNat'] at hnat
  unfold MaxEntries at hn hm
  omega

def crowdCalls : List Call := crowd.map fun key => ⟨0, key, .recordFailure⟩

/-- After a crowd failed once each, an address guesses on without a wait. -/
theorem crowd_unthrottles : ∃ (key : QString) (calls calls' : List Call),
    (calls.Pairwise fun c d => c.now ≤ d.now) ∧ (calls'.Pairwise fun c d => c.now ≤ d.now) ∧
    (calls.filter fun c => c.key = key) = (calls'.filter fun c => c.key = key) ∧
    answers key ⟨∅⟩ calls = [.done, .done, .done, .done, .allowed true] ∧
    answers key ⟨∅⟩ calls' = [.done, .done, .done, .done, .allowed false] := by
  have hothers : ∀ c ∈ crowdCalls, c.key ≠ str "me" := by
    intro c hc
    simp only [crowdCalls, crowd, List.map_map, List.mem_map] at hc
    obtain ⟨n, -, rfl⟩ := hc
    intro hkey
    have hlen := congrArg List.length hkey
    cases hlen
  have hempty : Once ⟨∅⟩ := by
    intro key e he
    cases he
  have hcrowd : crowd.length = MaxEntries := by simp [crowd]
  have hkeys : (⟨∅⟩ : RateLimiter).entries.keys = [] := rfl
  have hfull := hempty.crowd (by rw [hkeys, List.append_nil]; exact crowd_nodup)
    (by rw [hkeys, hcrowd]; exact Nat.le_refl _)
  have hfold : crowdCalls.foldl step ⟨∅⟩ =
      crowd.foldl (fun r key => r.recordFailure 0 key) ⟨∅⟩ := List.foldl_map ..
  rw [← hfold, hkeys, List.append_nil] at hfull
  obtain ⟨honce, hfull⟩ := hfull
  have hme : str "me" ∉ (crowdCalls.foldl step ⟨∅⟩).entries := by
    intro hmem
    have hmem : str "me" ∈ crowd := by simpa [hfull] using AList.mem_keys.1 hmem
    exact hothers _ (List.mem_map_of_mem hmem) rfl
  have hsame : (crowdCalls.foldl step ⟨∅⟩).recordFailure 0 (str "me") =
      crowdCalls.foldl step ⟨∅⟩ := by
    refine honce.full hme ?_
    rw [hfull, List.length_reverse, hcrowd]
  have hzero : ∀ c ∈ crowdCalls, c.now = 0 := by
    intro c hc
    obtain ⟨key, -, rfl⟩ := List.mem_map.1 hc
    rfl
  refine ⟨str "me", crowdCalls ++ guesses, guesses, ?_, by decide, ?_, ?_, by decide +kernel⟩
  · refine List.pairwise_append.2 ⟨?_, by decide, fun c hc d _ => ?_⟩
    · refine List.pairwise_of_forall_mem_list fun c hc d _ => ?_
      rw [hzero c hc]
      exact Nat.zero_le _
    · rw [hzero c hc]
      exact Nat.zero_le _
  · rw [List.filter_append, List.filter_eq_nil_iff.2 fun c hc => by simpa using hothers c hc]
    rfl
  · rw [answers_others hothers]
    have hallow : (crowdCalls.foldl step ⟨∅⟩).allow 0 (str "me") = true := by
      rw [allow, AList.lookup_eq_none.2 hme]
    generalize crowdCalls.foldl step ⟨∅⟩ = r at hsame hallow
    simp [guesses, List.replicate, answers, step, answer, hsame, hallow]

end RateLimiter

end LocalSend
