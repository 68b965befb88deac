import LocalSend.Core.Proof.RateLimiter
import Mathlib.Data.Finset.Card
import Mathlib.Data.Finset.Dedup

/-!
# The schedule

A `Streak` is what a run says of an address: how often it failed in a row and when last. As long as
the table has room, the entry of the address is what its streak says (`Streak.entry`,
`current_eq_entry`), so the waits are those of the schedule (`backoff_schedule`).

An entry that never blocked has no time on it, so a prune leaves it however old it is
(`forgotten_iff`).
-/

set_option autoImplicit false

namespace LocalSend

namespace RateLimiter

/-! ## The doubling loop -/

/-- How long the `n`-th failure in a row blocks, in milliseconds. -/
def block (n : Nat) : Nat := if n ≤ FreeAttempts then 0 else min (2 ^ (n - 4) * 1000) (15 * 60 * 1000)

/-- The loop doubles until it is at the cap or over it. -/
theorem doubled_min (k : Nat) :
    let doubled := (List.range k).foldl
      (fun backoff _ => if backoff < MaxBackoffMs then backoff * 2 else backoff) BaseBackoffMs
    min doubled MaxBackoffMs = min (2 ^ k * 1000) MaxBackoffMs ∧
      (doubled < MaxBackoffMs → doubled = 2 ^ k * 1000) := by
  induction k with
  | zero => exact ⟨rfl, fun _ => rfl⟩
  | succ k ih =>
    rw [List.range_succ, List.foldl_append, List.foldl_cons, List.foldl_nil, Nat.pow_succ]
    generalize (List.range k).foldl _ _ = doubled at ih ⊢
    simp only at ih ⊢
    obtain ⟨hmin, heq⟩ := ih
    split
    · rename_i hlt
      rw [heq hlt]
      omega
    · rename_i hge
      omega

theorem backoff_eq {n : Nat} (h : FreeAttempts < n) : backoff n = block n := by
  obtain ⟨hmin, -⟩ := doubled_min (n - (FreeAttempts + 1))
  have hcap : block n = min (2 ^ (n - (FreeAttempts + 1)) * 1000) MaxBackoffMs :=
    if_neg (Nat.not_le_of_lt h)
  rw [hcap, ← hmin]
  unfold backoff
  extract_lets doubled
  split <;> omega

theorem block_pos {n : Nat} (h : FreeAttempts < n) : 0 < block n := by
  unfold block
  rw [if_neg (Nat.not_le_of_lt h)]
  have hpow : 0 < 2 ^ (n - 4) := Nat.pow_pos (by decide)
  omega

/-! ## What a run says of an address -/

inductive Act
  | call (c : Call)
  | clear
deriving DecidableEq

def perform (r : RateLimiter) : Act → RateLimiter
  | .call c => r.step c
  | .clear => r.clear

/-- A limiter after these acts. -/
def after (run : List Act) : RateLimiter := run.foldl perform ⟨∅⟩

def Fails (key : QString) (a : Act) : Prop := ∃ now, a = .call ⟨now, key, .recordFailure⟩

/-- The address succeeded, or everything was cleared. -/
def Resets (key : QString) (a : Act) : Prop := a = .clear ∨ ∃ now, a = .call ⟨now, key, .recordSuccess⟩

/-- When the calls were. -/
def times (run : List Act) : List Nat :=
  run.filterMap fun
    | .call c => some c.now
    | .clear => none

/-- The clock does not go back, and is not past `now`. -/
def Ordered (run : List Act) (now : Nat) : Prop := (times run ++ [now]).Pairwise (· ≤ ·)

instance (run : List Act) (now : Nat) : Decidable (Ordered run now) :=
  inferInstanceAs (Decidable (List.Pairwise _ _))

/-- The addresses that failed. -/
def failed (run : List Act) : List QString :=
  run.filterMap fun
    | .call c => if c.op = .recordFailure then some c.key else none
    | .clear => none

/-- Failures in a row, and when the last of them was. -/
structure Streak where
  failures : Nat := 0
  last : Nat := 0
deriving DecidableEq

namespace Streak

def blockedUntil (x : Streak) : Nat := x.last + block x.failures

/-- Quiet for more than an hour past its block. -/
def isOver (now : Nat) (x : Streak) : Bool :=
  FreeAttempts < x.failures && x.blockedUntil + ForgetAfterMs < now

def fail (now : Nat) (x : Streak) : Streak := ⟨if x.isOver now then 1 else x.failures + 1, now⟩

/-- A success of the address, a clear, and quiet past a block start over. -/
def next (key : QString) (x : Streak) : Act → Streak
  | .clear => {}
  | .call c =>
    if c.key = key then
      match c.op with
      | .recordFailure => x.fail c.now
      | .recordSuccess => {}
      | .allow | .retryAfter => x
    else x

theorem next_other {key : QString} {c : Call} (h : c.key ≠ key) (x : Streak) :
    x.next key (.call c) = x := if_neg h

theorem next_own (c : Call) (x : Streak) : x.next c.key (.call c) = match c.op with
    | .recordFailure => x.fail c.now
    | .recordSuccess => {}
    | .allow | .retryAfter => x := if_pos rfl

/-- The entry of an address with this streak. -/
def entry (now : Nat) (x : Streak) : Option Entry :=
  if x.failures = 0 ∨ x.isOver now = true then none
  else some ⟨x.failures, if x.failures ≤ FreeAttempts then 0 else x.blockedUntil⟩

end Streak

def streak (key : QString) (run : List Act) : Streak := run.foldl (Streak.next key) {}

theorem streak_concat (key : QString) (run : List Act) (a : Act) :
    streak key (run ++ [a]) = (streak key run).next key a := by simp [streak]

theorem after_concat (run : List Act) (a : Act) : after (run ++ [a]) = (after run).perform a := by
  simp [after]

/-- What comes before a call is not past it. -/
theorem Ordered.before {run quiet : List Act} {c : Call} {now : Nat}
    (h : Ordered (run ++ .call c :: quiet) now) : Ordered run c.now ∧ c.now ≤ now := by
  have htimes : times (run ++ .call c :: quiet) = times run ++ [c.now] ++ times quiet := by
    simp [times]
  unfold Ordered at h
  rw [htimes] at h
  obtain ⟨hbefore, -, hcross⟩ := List.pairwise_append.1 h
  refine ⟨(List.pairwise_append.1 hbefore).1, hcross c.now ?_ now (.head _)⟩
  exact List.mem_append_left _ (List.mem_append_right _ (.head _))

/-! ## Room -/

theorem keys_prune_subset (r : RateLimiter) (now : Nat) :
    (r.prune now).entries.keys ⊆ r.entries.keys := by
  intro key hk
  by_contra hno
  have hnone : (r.prune now).entries.lookup key = none := by
    rw [lookup_prune, current, AList.lookup_eq_none.2 fun hk' => hno (AList.mem_keys.1 hk')]
    rfl
  exact AList.lookup_eq_none.1 hnone (AList.mem_keys.2 hk)

/-- Only addresses that failed are in the table. -/
theorem keys_after (run : List Act) : (after run).entries.keys ⊆ failed run := by
  induction run using List.reverseRecOn with
  | nil => exact List.nil_subset _
  | append_singleton run a ih =>
    have hkeep : (after run).entries.keys ⊆ failed (run ++ [a]) := by
      intro key hk
      unfold failed
      rw [List.filterMap_append]
      exact List.mem_append_left _ (ih hk)
    rw [after_concat]
    cases a with
    | clear => exact List.nil_subset _
    | call c =>
      change ((after run).step c).entries.keys ⊆ _
      unfold step
      cases hop : c.op with
      | allow => exact hkeep
      | retryAfter => exact hkeep
      | recordSuccess =>
        intro key hk
        have hmem : key ∈ (after run).entries.erase c.key := AList.mem_keys.2 hk
        exact hkeep (AList.mem_keys.1 (AList.mem_erase.1 hmem).2)
      | recordFailure =>
        intro key hk
        simp only [recordFailure] at hk
        split at hk
        · exact hkeep (keys_prune_subset _ _ hk)
        · rcases (AList.mem_insert _).1 (AList.mem_keys.2 hk) with rfl | hk
          · unfold failed
            rw [List.filterMap_append]
            exact List.mem_append_right _ (by simp [hop])
          · exact hkeep (keys_prune_subset _ _ (AList.mem_keys.1 hk))

theorem length_keys (r : RateLimiter) : r.entries.keys.length = r.entries.entries.length := by
  simp [AList.keys, List.keys]

/-- With fewer addresses than the table holds there is room. -/
theorem room_of_few {run : List Act} {c : Call}
    (hfew : (failed (run ++ [.call c])).toFinset.card < MaxEntries) :
    ((after run).prune c.now).entries.entries.length < MaxEntries := by
  have hsub : ((after run).prune c.now).entries.keys.toFinset ⊆
      (failed (run ++ [.call c])).toFinset := by
    intro key hk
    rw [List.mem_toFinset] at hk ⊢
    unfold failed
    rw [List.filterMap_append]
    exact List.mem_append_left _ (keys_after run (keys_prune_subset _ _ hk))
  have hcard := Finset.card_le_card hsub
  have hlen : ((after run).prune c.now).entries.keys.toFinset.card =
      ((after run).prune c.now).entries.keys.length :=
    List.toFinset_card_of_nodup ((after run).prune c.now).entries.nodupKeys
  rw [hlen, length_keys] at hcard
  omega

/-! ## The entry of an address -/

namespace Streak

/-- Time only makes a streak over. -/
theorem entry_mono {now later : Nat} (hle : now ≤ later) (x : Streak) :
    unexpired later (x.entry now) = x.entry later := by
  unfold entry
  by_cases hover : x.failures = 0 ∨ x.isOver now = true
  · have hlater : x.failures = 0 ∨ x.isOver later = true := by
      refine hover.imp_right fun h => ?_
      simp only [isOver, Bool.and_eq_true, decide_eq_true_eq] at h ⊢
      omega
    rw [if_pos hover, if_pos hlater]
    rfl
  · rw [if_neg hover, unexpired]
    obtain ⟨hne, -⟩ := not_or.1 hover
    have hstale : Entry.isStale later ⟨x.failures,
        if x.failures ≤ FreeAttempts then 0 else x.blockedUntil⟩ = x.isOver later := by
      unfold Entry.isStale isOver
      by_cases hfree : x.failures ≤ FreeAttempts
      · simp [hfree]
      · have hpos := block_pos (Nat.lt_of_not_le hfree)
        have hunt : x.blockedUntil ≠ 0 := by
          unfold blockedUntil
          omega
        simp [hfree, hunt, Nat.lt_of_not_le hfree]
    rw [hstale]
    cases hlater : x.isOver later with
    | true => rw [if_pos rfl, if_pos (.inr rfl)]
    | false => simp [hne]

/-- The entry after one more failure. -/
theorem entry_fail (now : Nat) (x : Streak) :
    (x.fail now).entry now = some (((x.entry now).getD {}).failed now) := by
  -- a failure is not over when it happens
  have hentry : ∀ n, entry now ⟨n + 1, now⟩ = some (Entry.failed now ⟨n,
      if n ≤ FreeAttempts then 0 else x.blockedUntil⟩) := by
    intro n
    have hfresh : ¬ (n + 1 = 0 ∨ isOver now ⟨n + 1, now⟩ = true) := by
      rintro (hzero | hover)
      · exact Nat.succ_ne_zero n hzero
      · simp only [isOver, blockedUntil, Bool.and_eq_true, decide_eq_true_eq] at hover
        have hlt := of_decide_eq_true hover.2
        omega
    refine (if_neg hfresh).trans (congrArg some ?_)
    unfold Entry.failed
    simp only
    by_cases hfree : n + 1 ≤ FreeAttempts
    · rw [if_pos hfree, if_pos hfree, if_pos (Nat.le_of_succ_le hfree)]
    · rw [if_neg hfree, if_neg hfree, backoff_eq (Nat.lt_of_not_le hfree)]
      rfl
  unfold fail
  cases hover : x.isOver now with
  | true =>
    have hnone : x.entry now = none := if_pos (.inr hover)
    rw [if_pos rfl, hnone, hentry 0]
    rfl
  | false =>
    rw [if_neg Bool.false_ne_true, hentry]
    by_cases hzero : x.failures = 0
    · have hnone : x.entry now = none := if_pos (.inl hzero)
      rw [hnone, hzero]
      rfl
    · have hsome : x.entry now = some ⟨x.failures,
          if x.failures ≤ FreeAttempts then 0 else x.blockedUntil⟩ := by
        refine if_neg (not_or.2 ⟨hzero, ?_⟩)
        rw [hover]
        exact Bool.false_ne_true
      rw [hsome]
      rfl

end Streak

/-- With room in the table, what a prune leaves of the entry is what the streak says. -/
theorem current_eq_entry {key : QString} {run : List Act} {now : Nat} (h : Ordered run now)
    (hfew : (failed run).toFinset.card < MaxEntries) :
    (after run).current now key = (streak key run).entry now := by
  induction run using List.reverseRecOn generalizing now with
  | nil => rfl
  | append_singleton run a ih =>
    have hfew' : (failed run).toFinset.card < MaxEntries := by
      refine Nat.lt_of_le_of_lt (Finset.card_le_card fun k hk => ?_) hfew
      rw [List.mem_toFinset] at hk ⊢
      unfold failed at hk ⊢
      rw [List.filterMap_append]
      exact List.mem_append_left _ hk
    rw [after_concat, streak_concat]
    cases a with
    | clear => rfl
    | call c =>
      obtain ⟨hbefore, hle⟩ := h.before
      have hcur : (after run).current c.now key = (streak key run).entry c.now := ih hbefore hfew'
      -- the call leaves the entry as the streak says, at its own time
      suffices hstep : ((after run).step c).current c.now key =
          ((streak key run).next key (.call c)).entry c.now by
        have hlater := congrArg (unexpired now) hstep
        rw [Streak.entry_mono hle] at hlater
        rw [← hlater, current, current, unexpired_mono hle]
        rfl
      by_cases hk : c.key = key
      · subst hk
        rw [Streak.next_own]
        unfold step
        cases c.op with
        | allow => exact hcur
        | retryAfter => exact hcur
        | recordFailure =>
          have hlookup := @lookup_recordFailure _ _ c.key (.inr (room_of_few hfew))
          rw [hcur, ← Streak.entry_fail] at hlookup
          simp only [current]
          rw [hlookup, Streak.entry_mono (Nat.le_refl _)]
        | recordSuccess =>
          simp only [recordSuccess, current]
          rw [AList.lookup_erase]
          rfl
      · rw [current_step_other hk, hcur, Streak.next_other hk]

/-! ## The schedule -/

theorem allow_streak {key : QString} {run : List Act} {now : Nat} (h : Ordered run now)
    (hfew : (failed run).toFinset.card < MaxEntries) :
    (after run).allow now key = false ↔
      FreeAttempts < (streak key run).failures ∧ now < (streak key run).blockedUntil := by
  rw [allow_eq, current_eq_entry h hfew]
  generalize streak key run = x
  unfold Streak.entry
  by_cases hover : x.failures = 0 ∨ x.isOver now = true
  · rw [if_pos hover]
    refine ⟨nofun, fun ⟨hblocks, hlt⟩ => ?_⟩
    rcases hover with hzero | hover
    · rw [hzero] at hblocks
      exact absurd hblocks (Nat.not_lt_zero _)
    · simp only [Streak.isOver, Bool.and_eq_true, decide_eq_true_eq] at hover
      omega
  · rw [if_neg hover]
    simp only [decide_eq_false_iff_not, Nat.not_le]
    by_cases hfree : x.failures ≤ FreeAttempts
    · rw [if_pos hfree]
      omega
    · rw [if_neg hfree]
      omega

/-- The seconds are the least that do. -/
theorem retryAfter_least (r : RateLimiter) (now : Nat) (key : QString) :
    (r.retryAfter now key = 0 ↔ r.allow now key = true) ∧
      r.allow (now + 1000 * r.retryAfter now key) key = true ∧
      ∀ seconds < r.retryAfter now key, r.allow (now + 1000 * seconds) key = false := by
  unfold retryAfter allow
  cases r.entries.lookup key with
  | none => exact ⟨⟨fun _ => rfl, fun _ => rfl⟩, rfl, fun _ hlt => absurd hlt (Nat.not_lt_zero _)⟩
  | some e =>
    simp only [decide_eq_true_eq, decide_eq_false_iff_not]
    refine ⟨?_, ?_, fun seconds hlt => ?_⟩ <;> omega

/-- An act that leaves the streak of `key`. -/
theorem Streak.next_quiet {key : QString} {a : Act} (hf : ¬ Fails key a) (hr : ¬ Resets key a)
    (x : Streak) : x.next key a = x := by
  cases a with
  | clear => exact absurd (.inl rfl) hr
  | call c =>
    by_cases hk : c.key = key
    · subst hk
      rw [next_own]
      obtain ⟨now, key, op⟩ := c
      cases op with
      | allow => rfl
      | retryAfter => rfl
      | recordFailure => exact absurd ⟨now, rfl⟩ hf
      | recordSuccess => exact absurd (.inr ⟨now, rfl⟩) hr
    · exact next_other hk x

theorem streak_quiet {key : QString} {before quiet : List Act}
    (h : ∀ a ∈ quiet, ¬ Fails key a ∧ ¬ Resets key a) :
    streak key (before ++ quiet) = streak key before := by
  induction quiet using List.reverseRecOn with
  | nil => rw [List.append_nil]
  | append_singleton quiet a ih =>
    have ha := h a (List.mem_append_right _ (List.mem_singleton_self a))
    rw [← List.append_assoc, streak_concat, Streak.next_quiet ha.1 ha.2]
    exact ih fun b hb => h b (List.mem_append_left _ hb)

/-- The waits of `key` after a run, at `now`. -/
structure Schedule (key : QString) (run : List Act) (now : Nat) : Prop where
  allow : (after run).allow now key = false ↔ FreeAttempts < (streak key run).failures ∧
    now < (streak key run).last + block (streak key run).failures
  none : (after run).retryAfter now key = 0 ↔ (after run).allow now key = true
  enough : (after run).allow (now + 1000 * (after run).retryAfter now key) key = true
  least : ∀ seconds < (after run).retryAfter now key,
    (after run).allow (now + 1000 * seconds) key = false
  /-- A failure that is let in comes a block after the one before it. -/
  apart : ∀ before failedAt quiet,
    run = before ++ .call ⟨failedAt, key, .recordFailure⟩ :: quiet →
    (∀ a ∈ quiet, ¬ Fails key a ∧ ¬ Resets key a) → (after run).allow now key = true →
    failedAt + block (((streak key before).fail failedAt).failures) ≤ now

/-- With fewer addresses than the table holds, every address waits as scheduled: its streak goes up
by one with each failure, and starts over with a success, a clear, or more than an hour's quiet past
its block. -/
theorem backoff_schedule {run : List Act} {now : Nat} (hordered : Ordered run now)
    (hfew : (failed run).toFinset.card < MaxEntries) (key : QString) : Schedule key run now := by
  obtain ⟨hnone, henough, hleast⟩ := retryAfter_least (after run) now key
  have hallow := @allow_streak key _ _ hordered hfew
  refine ⟨hallow, hnone, henough, hleast, ?_⟩
  rintro before failedAt quiet rfl hquiet hyes
  have hstreak : streak key (before ++ .call ⟨failedAt, key, .recordFailure⟩ :: quiet) =
      (streak key before).fail failedAt := by
    rw [List.append_cons, streak_quiet hquiet, streak_concat]
    exact Streak.next_own ⟨failedAt, key, .recordFailure⟩ _
  rw [hstreak] at hallow
  have hle : failedAt ≤ now := hordered.before.2
  by_contra hlt
  by_cases hfree : ((streak key before).fail failedAt).failures ≤ FreeAttempts
  · have hzero : block ((streak key before).fail failedAt).failures = 0 := if_pos hfree
    omega
  · have hno := hallow.2 ⟨Nat.lt_of_not_le hfree, Nat.lt_of_not_le hlt⟩
    exact Bool.noConfusion (hyes.symm.trans hno)

/-- Six failures, an hour and a half, and one more. -/
def spread : List Act :=
  [0, 0, 0, 0, 1000, 3000, 5400000].map fun now => .call ⟨now, str "me", .recordFailure⟩

theorem spread_scheduled : Schedule (str "me") spread 5400000 ∧
    Schedule (str "me") (spread.take 6) 6999 ∧
    (streak (str "me") (spread.take 6)).failures = 6 ∧ (streak (str "me") spread).failures = 1 :=
  ⟨backoff_schedule (by decide) (by decide) _, backoff_schedule (by decide) (by decide) _,
    by decide, by decide⟩

/-! ## What is forgotten -/

/-- What holds of every entry, and of the size of the table. -/
structure Kept (r : RateLimiter) : Prop where
  failures : ∀ key e, r.entries.lookup key = some e → 1 ≤ e.failures
  blocks : ∀ key e, r.entries.lookup key = some e →
    (e.blockedUntil ≠ 0 ↔ FreeAttempts < e.failures)
  size : r.entries.entries.length ≤ MaxEntries

theorem length_le_of_keys {r s : RateLimiter} (h : r.entries.keys ⊆ s.entries.keys) :
    r.entries.entries.length ≤ s.entries.entries.length := by
  have hle := (r.entries.keys_nodup.subperm h).length_le
  rwa [length_keys, length_keys] at hle

/-- Of a table that has only entries of the other. -/
theorem Kept.of_lookup {r s : RateLimiter} (h : s.Kept)
    (hsub : ∀ key e, r.entries.lookup key = some e → s.entries.lookup key = some e) : r.Kept where
  failures key e he := h.failures key e (hsub key e he)
  blocks key e he := h.blocks key e (hsub key e he)
  size := by
    refine Nat.le_trans (length_le_of_keys fun key hk => ?_) h.size
    obtain ⟨e, he⟩ := AList.lookup_isSome.2 (AList.mem_keys.2 hk) |> Option.isSome_iff_exists.1
    refine AList.mem_keys.1 (AList.lookup_isSome.1 ?_)
    rw [hsub key e he]
    rfl

theorem lookup_of_prune {r : RateLimiter} {now : Nat} {key : QString} {e : Entry}
    (h : (r.prune now).entries.lookup key = some e) : r.entries.lookup key = some e := by
  rw [lookup_prune, current] at h
  cases hl : r.entries.lookup key with
  | none =>
    rw [hl] at h
    cases h
  | some e' =>
    rw [hl, unexpired] at h
    split at h
    · cases h
    · exact h

/-- One more failure of an entry, or of none. -/
theorem Kept.failed {r : RateLimiter} (h : r.Kept) {key : QString} (now : Nat) :
    let e := Entry.failed now ((r.entries.lookup key).getD {})
    1 ≤ e.failures ∧ (e.blockedUntil ≠ 0 ↔ FreeAttempts < e.failures) := by
  have hold : ¬ FreeAttempts < ((r.entries.lookup key).getD {}).failures →
      ((r.entries.lookup key).getD {}).blockedUntil = 0 := by
    intro hfree
    cases hl : r.entries.lookup key with
    | none => rfl
    | some e =>
      rw [hl] at hfree
      exact not_not.1 fun hne => hfree ((h.blocks key e hl).1 hne)
  generalize (r.entries.lookup key).getD {} = e at hold
  unfold Entry.failed
  simp only
  split
  · rename_i hfree
    refine ⟨Nat.succ_pos _, ?_⟩
    rw [hold (by omega)]
    simp only [ne_eq, not_true_eq_false, false_iff]
    omega
  · rename_i hblocks
    have hpos := block_pos (Nat.lt_of_not_le hblocks)
    rw [backoff_eq (Nat.lt_of_not_le hblocks)]
    refine ⟨Nat.succ_pos _, ?_⟩
    simp only
    omega

theorem Kept.insert {r : RateLimiter} (h : r.Kept) {key : QString} {e : Entry}
    (he : 1 ≤ e.failures ∧ (e.blockedUntil ≠ 0 ↔ FreeAttempts < e.failures))
    (hroom : key ∈ r.entries ∨ r.entries.entries.length < MaxEntries) :
    Kept ⟨r.entries.insert key e⟩ := by
  have hcases : ∀ other d, (r.entries.insert key e).lookup other = some d →
      d = e ∨ r.entries.lookup other = some d := by
    intro other d hd
    by_cases ho : other = key
    · rw [ho, AList.lookup_insert] at hd
      exact .inl (Option.some.inj hd).symm
    · rw [AList.lookup_insert_ne ho] at hd
      exact .inr hd
  refine ⟨fun other d hd => ?_, fun other d hd => ?_, ?_⟩
  · rcases hcases other d hd with rfl | hd
    · exact he.1
    · exact h.failures other d hd
  · rcases hcases other d hd with rfl | hd
    · exact he.2
    · exact h.blocks other d hd
  · have hsize := h.size
    by_cases hk : key ∈ r.entries
    · refine Nat.le_trans (length_le_of_keys (s := r) fun other ho => ?_) hsize
      rcases (AList.mem_insert _).1 (AList.mem_keys.2 ho) with rfl | ho
      · exact AList.mem_keys.1 hk
      · exact AList.mem_keys.1 ho
    · rw [AList.entries_insert_of_notMem hk, List.length_cons]
      exact hroom.resolve_left hk

theorem Kept.perform {r : RateLimiter} (h : r.Kept) (a : Act) : (r.perform a).Kept := by
  cases a with
  | clear => exact ⟨nofun, nofun, Nat.zero_le _⟩
  | call c =>
    change (r.step c).Kept
    unfold step
    cases c.op with
    | allow => exact h
    | retryAfter => exact h
    | recordFailure =>
      have hpruned : (r.prune c.now).Kept := h.of_lookup fun _ _ => lookup_of_prune
      simp only [recordFailure]
      split
      · exact hpruned
      · rename_i hroom
        refine hpruned.insert (hpruned.failed c.now) ?_
        by_contra hno
        obtain ⟨hk, hfull⟩ := not_or.1 hno
        exact hroom ⟨hk, Nat.le_of_not_lt hfull⟩
    | recordSuccess =>
      refine h.of_lookup fun other e he => ?_
      simp only [recordSuccess] at he
      by_cases ho : other = c.key
      · rw [ho, AList.lookup_erase] at he
        cases he
      · rwa [AList.lookup_erase_ne ho] at he

theorem Kept.after (run : List Act) : (after run).Kept := by
  induction run using List.reverseRecOn with
  | nil => exact ⟨nofun, nofun, Nat.zero_le _⟩
  | append_singleton run a ih =>
    rw [after_concat]
    exact ih.perform a

/-- More than an hour has passed since the last failure of `key`, and since the end of its block. -/
structure Quiet (key : QString) (run : List Act) (now : Nat) : Prop where
  failures : ∀ failedAt, .call ⟨failedAt, key, .recordFailure⟩ ∈ run → failedAt + ForgetAfterMs < now
  block : ∀ e, (after run).entries.lookup key = some e → e.blockedUntil + ForgetAfterMs < now

/-- The next failure of `key` is its first, and its entry is not counted any more. -/
structure Forgotten (r : RateLimiter) (now : Nat) (key : QString) : Prop where
  first : ∃ e, (r.recordFailure now key).entries.lookup key = some e ∧ e.failures = 1
  uncounted : key ∉ (r.prune now).entries

/-- An address that has been quiet is forgotten if and only if its failures went past the free ones,
or it has none on record and there is room for it. -/
theorem forgotten_iff {key : QString} {run : List Act} {now : Nat} (h : Quiet key run now) :
    Forgotten (after run) now key ↔
      (∀ e, (after run).entries.lookup key = some e → FreeAttempts < e.failures) ∧
      (key ∈ (after run).entries ∨
        ((after run).prune now).entries.entries.length < MaxEntries) := by
  have hkept := Kept.after run
  have hblock := h.block
  generalize after run = r at hkept hblock
  have hgone : key ∉ (r.prune now).entries ↔ ∀ e, r.entries.lookup key = some e →
      FreeAttempts < e.failures := by
    rw [← AList.lookup_eq_none, lookup_prune, current]
    cases hl : r.entries.lookup key with
    | none => exact ⟨fun _ e he => absurd he (by simp), fun _ => rfl⟩
    | some e =>
      have hstale : e.isStale now = true ↔ FreeAttempts < e.failures := by
        have hlt := hblock e hl
        rw [← hkept.blocks key e hl]
        simp only [Entry.isStale, Bool.and_eq_true, decide_eq_true_eq]
        exact ⟨And.left, fun hne => ⟨hne, hlt⟩⟩
      simp only [unexpired, Option.some.injEq, forall_eq', ← hstale]
      split <;> simp_all
  constructor
  · rintro ⟨⟨e, he, -⟩, hno⟩
    refine ⟨hgone.1 hno, ?_⟩
    by_contra hfull
    obtain ⟨-, hfull⟩ := not_or.1 hfull
    have hdropped : r.recordFailure now key = r.prune now := by
      unfold recordFailure
      exact if_pos ⟨hno, Nat.le_of_not_lt hfull⟩
    rw [hdropped, AList.lookup_eq_none.2 hno] at he
    cases he
  · rintro ⟨hfailures, hroom⟩
    have hno := hgone.2 hfailures
    refine ⟨⟨_, lookup_recordFailure (.inr ?_), ?_⟩, hno⟩
    · by_cases hk : key ∈ r.entries
      · -- its own entry has made room
        have hsub : (r.prune now).entries.keys ⊆ r.entries.keys.erase key := by
          intro other ho
          refine (List.mem_erase_of_ne fun heq => hno ?_).2 (keys_prune_subset r now ho)
          exact AList.mem_keys.2 (heq ▸ ho)
        have hle := ((r.prune now).entries.keys_nodup.subperm hsub).length_le
        rw [List.length_erase_of_mem (AList.mem_keys.1 hk), length_keys, length_keys] at hle
        have hsize := hkept.size
        have hpos : 0 < r.entries.entries.length := by
          rw [← length_keys]
          exact List.length_pos_of_mem (AList.mem_keys.1 hk)
        omega
      · exact hroom.resolve_left hk
    · have hnone : r.current now key = none := by
        rw [← lookup_prune]
        exact AList.lookup_eq_none.2 hno
      rw [hnone]
      rfl

/-- A week after these failures. -/
theorem week_quiet {n : Nat} {e : Entry}
    (h : (after (List.replicate n (.call ⟨0, str "me", .recordFailure⟩))).entries.lookup (str "me") =
      some e) (he : e.blockedUntil + ForgetAfterMs < 604800000) :
    Quiet (str "me") (List.replicate n (.call ⟨0, str "me", .recordFailure⟩)) 604800000 where
  failures failedAt hmem := by
    cases List.eq_of_mem_replicate hmem
    decide
  block e' he' := by
    cases h.symm.trans he'
    exact he

/-- A device that failed four times last week starts over. -/
theorem last_week_forgotten : Forgotten
    (after (List.replicate 4 (.call ⟨0, str "me", .recordFailure⟩))) 604800000 (str "me") := by
  have hlookup : (after (List.replicate 4 (.call ⟨0, str "me", .recordFailure⟩))).entries.lookup
      (str "me") = some ⟨4, 1000⟩ := rfl
  refine (forgotten_iff (week_quiet hlookup (by decide))).2 ⟨fun e he => ?_, .inl ?_⟩
  · cases hlookup.symm.trans he
    decide
  · exact AList.lookup_isSome.1 (by rw [hlookup]; rfl)

/-- One that failed three times does not: the next failure blocks it. -/
theorem last_week_kept :
    let run := List.replicate 3 (.call ⟨0, str "me", .recordFailure⟩)
    Quiet (str "me") run 604800000 ∧ ¬ Forgotten (after run) 604800000 (str "me") ∧
      ((after run).recordFailure 604800000 (str "me")).allow 604800000 (str "me") = false := by
  intro run
  have hlookup : (after run).entries.lookup (str "me") = some ⟨3, 0⟩ := rfl
  refine ⟨week_quiet hlookup (by decide), fun h => ?_, rfl⟩
  obtain ⟨e, he, hone⟩ := h.first
  have hfour : ((after run).recordFailure 604800000 (str "me")).entries.lookup (str "me") =
      some ⟨4, 604801000⟩ := rfl
  cases hfour.symm.trans he
  exact absurd hone (by decide)

end RateLimiter

end LocalSend
