import LocalSend.Core.Proof.Backoff

/-!
# What guessing costs

A guess is paid for with the waits before it. In a streak the first failures are free and the waits
grow from a second to a quarter of an hour, so the failures of a streak are ahead of the clock by
some `debt`, which the hour of quiet that starts a new streak makes up for (`debt_over`). So in any
window the failures of an address cost `GuessMs` each, but for `AheadMs` in all (`Guessed.bound`).
-/

set_option autoImplicit false

namespace LocalSend

namespace RateLimiter

/-- What a wrong guess costs in the long run: about the hour and the waits of a streak of twelve,
shared among them. -/
def GuessMs : Nat := 342 * 1000

/-- The most a streak is ahead of the clock, after the thirteenth failure. -/
def AheadMs : Nat := 3935 * 1000

/-- How far a streak can be ahead right after its `n`-th failure. -/
def debt : Nat → Nat
  | 0 => 0
  | n + 1 => GuessMs + (debt n - block n)

theorem block_late {n : Nat} (h : 14 ≤ n) : block n = MaxBackoffMs := by
  have hpow : 2 ^ 10 ≤ 2 ^ (n - 4) := Nat.pow_le_pow_right (by decide) (by omega)
  have hpast : ¬ n ≤ FreeAttempts := by
    unfold FreeAttempts
    omega
  unfold block MaxBackoffMs
  rw [if_neg hpast]
  omega

/-- From the fourteenth failure on a streak only falls behind. -/
theorem debt_late {n : Nat} (h : 14 ≤ n) : debt n ≤ 3765 * 1000 := by
  induction n, h using Nat.le_induction with
  | base => decide
  | succ n h ih =>
    unfold debt GuessMs
    rw [block_late h]
    unfold MaxBackoffMs
    omega

theorem debt_le (n : Nat) : debt n ≤ AheadMs := by
  by_cases h : 14 ≤ n
  · exact Nat.le_trans (debt_late h) (by decide)
  · have hearly : ∀ n < 14, debt n ≤ AheadMs := by decide
    exact hearly n (Nat.lt_of_not_le h)

/-- The hour of quiet makes up for what is left after the block. -/
theorem debt_over {n : Nat} (h : FreeAttempts < n) : debt n ≤ block n + ForgetAfterMs := by
  by_cases hlate : 14 ≤ n
  · have hdebt := debt_late hlate
    rw [block_late hlate]
    unfold MaxBackoffMs ForgetAfterMs
    omega
  · have hearly : ∀ n < 14, FreeAttempts < n → debt n ≤ block n + ForgetAfterMs := by decide
    exact hearly n (Nat.lt_of_not_le hlate) h

/-! ## Entries and streaks -/

/-- Every entry is that of some streak. -/
def Dated (now : Nat) (r : RateLimiter) : Prop := ∀ key e, r.entries.lookup key = some e →
  ∃ last ≤ now, 0 < e.failures ∧
    e.blockedUntil = if e.failures ≤ FreeAttempts then 0 else last + block e.failures

variable {r : RateLimiter} {now since n : Nat} {key other : QString}

theorem Dated.empty : Dated now ⟨∅⟩ := by
  intro key e he
  rw [AList.lookup_empty] at he
  cases he

theorem Dated.later (h : r.Dated now) {t : Nat} (hle : now ≤ t) : r.Dated t := by
  intro key e he
  obtain ⟨last, hlast, hentry⟩ := h key e he
  exact ⟨last, Nat.le_trans hlast hle, hentry⟩

theorem Dated.recordSuccess (h : r.Dated now) (key : QString) : (r.recordSuccess key).Dated now := by
  intro k e he
  by_cases hk : k = key
  · subst hk
    cases (AList.lookup_erase _ _).symm.trans he
  · refine h k e ?_
    rwa [RateLimiter.recordSuccess, AList.lookup_erase_ne hk] at he

theorem Dated.recordFailure (h : r.Dated now) (key : QString) :
    (r.recordFailure now key).Dated now := by
  have hprune : (r.prune now).Dated now := fun k e he => h k e (lookup_of_prune he)
  unfold RateLimiter.recordFailure
  simp only
  split
  · exact hprune
  · intro k e he
    by_cases hk : k = key
    · subst hk
      obtain rfl := Option.some.inj ((AList.lookup_insert _).symm.trans he)
      -- an entry that had not blocked yet has no time on it
      have hold : (((r.prune now).entries.lookup k).getD {}).failures + 1 ≤ FreeAttempts →
          (((r.prune now).entries.lookup k).getD {}).blockedUntil = 0 := by
        intro hfree
        cases hl : (r.prune now).entries.lookup k with
        | none => rfl
        | some e =>
          rw [hl] at hfree
          obtain ⟨last, -, -, hblock⟩ := hprune k e hl
          change e.failures + 1 ≤ FreeAttempts at hfree
          rw [if_pos (Nat.le_of_succ_le hfree)] at hblock
          exact hblock
      refine ⟨now, Nat.le_refl now, ?_⟩
      generalize ((r.prune now).entries.lookup k).getD {} = e at hold ⊢
      by_cases hfree : e.failures + 1 ≤ FreeAttempts
      · simp [hfree, hold hfree]
      · simp [hfree, backoff_eq (Nat.lt_of_not_le hfree)]
    · rw [AList.lookup_insert_ne hk] at he
      exact hprune k e he

/-- Each address has a streak, that the table tells. -/
theorem Dated.streak (h : r.Dated now) (key : QString) :
    ∃ x : Streak, x.last ≤ now ∧ r.current now key = x.entry now := by
  unfold current
  cases hl : r.entries.lookup key with
  | none => exact ⟨{}, Nat.zero_le now, rfl⟩
  | some e =>
    obtain ⟨last, hlast, hpos, hblock⟩ := h key e hl
    refine ⟨⟨e.failures, last⟩, hlast, ?_⟩
    have hentry : Streak.entry last ⟨e.failures, last⟩ = some e := by
      have hfresh : ¬ (e.failures = 0 ∨ Streak.isOver last ⟨e.failures, last⟩ = true) := by
        rintro (hzero | hover)
        · omega
        · simp only [Streak.isOver, Streak.blockedUntil, Bool.and_eq_true, decide_eq_true_eq] at hover
          have hlt := of_decide_eq_true hover.2
          omega
      refine (if_neg hfresh).trans (congrArg some ?_)
      cases e
      simp only at hblock
      rw [hblock]
      rfl
    rw [← hentry]
    exact Streak.entry_mono hlast _

/-! ## Failures in a window -/

/-- Of an address that has failed `n` times since then: its streak, and how far the failures are
ahead of the clock. -/
def Guessed (since : Nat) (key : QString) (now : Nat) (r : RateLimiter) (n : Nat) : Prop :=
  ∃ x : Streak, x.last ≤ now ∧ r.current now key = x.entry now ∧
    (GuessMs * n + since ≤ now ∨ GuessMs * n + since ≤ x.last + debt x.failures)

theorem Dated.guessed (h : r.Dated now) (key : QString) : Guessed now key now r 0 := by
  obtain ⟨x, hlast, hcurrent⟩ := h.streak key
  exact ⟨x, hlast, hcurrent, .inl (Nat.le_of_eq (Nat.zero_add now))⟩

theorem Guessed.bound (h : Guessed since key now r n) : GuessMs * n + since ≤ now + AheadMs := by
  obtain ⟨x, hlast, -, hahead⟩ := h
  have hdebt := debt_le x.failures
  omega

theorem Guessed.later (h : Guessed since key now r n) {t : Nat} (hle : now ≤ t) :
    Guessed since key t r n := by
  obtain ⟨x, hlast, hcurrent, hahead⟩ := h
  refine ⟨x, Nat.le_trans hlast hle, ?_, hahead.imp_left fun h => Nat.le_trans h hle⟩
  have hlater := congrArg (unexpired t) hcurrent
  rwa [current, unexpired_mono hle, Streak.entry_mono hle] at hlater

theorem Guessed.recordSuccess (h : Guessed since key now r n) (ho : other ≠ key) :
    Guessed since key now (r.recordSuccess other) n := by
  obtain ⟨x, hlast, hcurrent, hahead⟩ := h
  refine ⟨x, hlast, ?_, hahead⟩
  rw [← hcurrent, current, RateLimiter.recordSuccess, AList.lookup_erase_ne ho.symm]
  rfl

theorem Guessed.recordFailure (h : Guessed since key now r n) (ho : other ≠ key) :
    Guessed since key now (r.recordFailure now other) n := by
  obtain ⟨x, hlast, hcurrent, hahead⟩ := h
  exact ⟨x, hlast, (current_recordFailure ho.symm).trans hcurrent, hahead⟩

/-- An address that is let in has waited for its last failure to be over. -/
theorem waited_of_allow {x : Streak} (hcurrent : r.current now key = x.entry now)
    (hlast : x.last ≤ now) (hallow : r.allow now key = true) : x.last + block x.failures ≤ now := by
  rw [allow_eq, hcurrent] at hallow
  by_cases hfree : x.failures ≤ FreeAttempts
  · unfold block
    rwa [if_pos hfree]
  by_cases hover : x.isOver now = true
  · simp only [Streak.isOver, Streak.blockedUntil, Bool.and_eq_true, decide_eq_true_eq] at hover
    have hlt := of_decide_eq_true hover.2
    omega
  · have hentry : x.entry now = some ⟨x.failures, x.blockedUntil⟩ := by
      have hne : ¬ (x.failures = 0 ∨ x.isOver now = true) := by
        rintro (hzero | h)
        · exact hfree (hzero ▸ Nat.zero_le _)
        · exact hover h
      rw [Streak.entry, if_neg hne, if_neg hfree]
    rw [hentry] at hallow
    exact of_decide_eq_true hallow

/-- One more failure of the address itself. -/
theorem Guessed.fail (h : Guessed since key now r n) (hallow : r.allow now key = true)
    (hroom : HasRoom key r ⟨now, key, .recordFailure⟩) :
    Guessed since key now (r.recordFailure now key) (n + 1) := by
  obtain ⟨x, hlast, hcurrent, hahead⟩ := h
  refine ⟨x.fail now, Nat.le_refl now, ?_, .inr ?_⟩
  · have hlookup := lookup_recordFailure (hroom rfl rfl)
    rw [hcurrent, ← Streak.entry_fail] at hlookup
    rw [current, hlookup, Streak.entry_mono (Nat.le_refl now)]
  have hwaited := waited_of_allow hcurrent hlast hallow
  change GuessMs * (n + 1) + since ≤ now + debt (if x.isOver now then 1 else x.failures + 1)
  rw [Nat.mul_succ]
  split
  · -- a new streak: the hour of quiet has made up for the one before
    rename_i hover
    simp only [Streak.isOver, Streak.blockedUntil, Bool.and_eq_true, decide_eq_true_eq] at hover
    obtain ⟨hpast, hquiet⟩ := hover
    have hdebt := debt_over hpast
    have hquiet := of_decide_eq_true hquiet
    have hone : debt 1 = GuessMs := rfl
    omega
  · have hnext : debt (x.failures + 1) = GuessMs + (debt x.failures - block x.failures) := rfl
    omega

end RateLimiter

end LocalSend
