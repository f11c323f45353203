import Bridge.Retry.Manager

/-!
# When the retry manager sleeps

After a failed attempt `executeWithRetry` sleeps `if (attempt > 1)`, and computes the next delay
after that. So there is **no sleep between the first attempt and the second**, and `initialDelay` is
never slept: the first sleep, before the third attempt, is already one backoff on. The jitter is
added after the cap, to a delay that has the jitter of the attempts before in it, so a sleep may be
a tenth longer than `maxDelay`.
-/

namespace Bridge.Retry

open Lib Lib.Utf16 Breaker List

variable {α : Type} {print : Rat → Text} {config : Config} {env : Environment α}

def sleepsBefore (log : List Effect) (attempt : Nat) : List Rat :=
  (log.filterMap Effect.sleep).filterMap fun s => if s.1 + 1 = attempt then some s.2 else none

/-- The delay that the `k`-th sleep is meant to have. -/
def nominalDelay (config : Config) (k : Nat) : Rat :=
  min (config.initialDelay * config.backoffMultiplier ^ (k - 1)) config.maxDelay

/-- Exponential backoff as it is meant, for the attempts up to `m + 1`: one sleep before each but
the first, within a tenth and the rounding of its delay, and not longer than `maxDelay`. -/
def OnSchedule (config : Config) (log : List Effect) (m : Nat) : Prop :=
  ∀ attempt, 2 ≤ attempt → attempt ≤ m + 1 → attempt ≤ config.maxAttempts →
    ∃ ms, sleepsBefore log attempt = [ms] ∧
      |ms - nominalDelay config (attempt - 1)| ≤ nominalDelay config (attempt - 1) / 10 + 1 / 2 ∧
      ms ≤ config.maxDelay

theorem sleeps_attempted (attempt : Nat) :
    (attempted print config env attempt).filterMap Effect.sleep = [] := by
  rw [filterMap_attempted]
  simp [recordOf, Effect.sleep]

theorem sleeps_retried {attempt : Nat} (hd : decisive print config env attempt = false) :
    (retried print config env attempt).filterMap Effect.sleep =
      if 1 < attempt then [(attempt, delayAt config env attempt)] else [] := by
  obtain ⟨e, he, -⟩ := exists_retryable (Bool.eq_false_iff.mp hd)
  simp only [retried, he]
  split <;> simp [Effect.sleep]

theorem sleeps_trace {last : Nat}
    (hd : ∀ i, 1 ≤ i → i < last → decisive print config env i = false) :
    (trace print config env 1 last).filterMap Effect.sleep =
      (range' 1 (last - 1)).flatMap fun attempt =>
        if 1 < attempt then [(attempt, delayAt config env attempt)] else [] := by
  rw [filterMap_trace, filterMap_concluded print config env (fun _ => rfl), sleeps_attempted,
    append_nil, append_nil]
  refine flatMap_congr ?_
  intro attempt hmem
  obtain ⟨hpos, hlt⟩ := mem_range'_1.mp hmem
  rw [sleeps_attempted, nil_append, sleeps_retried (hd attempt hpos (by omega))]

theorem flatMap_range'_succ_eq {β : Type} (f : Nat → List β) (first count attempt : Nat) :
    ((range' first count).flatMap fun i => if i + 1 = attempt then f i else []) =
      if first < attempt ∧ attempt ≤ first + count then f (attempt - 1) else [] := by
  induction count generalizing first with
  | zero =>
    rw [if_neg (by omega)]
    rfl
  | succ count ih =>
    rw [range'_succ, flatMap_cons, ih]
    by_cases hi : first + 1 = attempt
    · subst hi
      rw [if_pos rfl, if_neg (by omega), if_pos (by omega), append_nil, Nat.add_sub_cancel]
    · rw [if_neg hi, nil_append]
      exact if_congr (by omega) rfl rfl

theorem sleepsBefore_trace {last : Nat}
    (hd : ∀ i, 1 ≤ i → i < last → decisive print config env i = false) (attempt : Nat) :
    sleepsBefore (trace print config env 1 last) attempt =
      if 3 ≤ attempt ∧ attempt ≤ last then [delayAt config env (attempt - 1)] else [] := by
  have hone : ∀ i, (if 1 < i then [(i, delayAt config env i)] else []).filterMap
      (fun s => if s.1 + 1 = attempt then some s.2 else none) =
      if i + 1 = attempt then (if 1 < i then [delayAt config env i] else []) else [] := by
    intro i
    by_cases hi : i + 1 = attempt <;> by_cases hlt : 1 < i <;> simp [hi, hlt]
  rw [sleepsBefore, sleeps_trace hd, filterMap_flatMap]
  simp only [hone]
  rw [flatMap_range'_succ_eq]
  by_cases hlate : 3 ≤ attempt ∧ attempt ≤ last
  · rw [if_pos hlate, if_pos (by omega), if_pos (by omega)]
  · rw [if_neg hlate]
    split
    · exact if_neg (by omega)
    · rfl

/-! ## How long they are -/

theorem le_round_add (x : Rat) : x ≤ round x + 1 / 2 := by
  have h := Int.lt_floor_add_one (x + 1 / 2)
  unfold round
  linarith

theorem round_le (x : Rat) : round x ≤ x + 1 / 2 := Int.floor_le (x + 1 / 2)

theorem round_nonneg {x : Rat} (h : 0 ≤ x) : 0 ≤ round x := by
  have hfloor : 0 ≤ ⌊x + 1 / 2⌋ := Int.floor_nonneg.mpr (by linarith)
  unfold round
  exact_mod_cast hfloor

def jittered (random next : Rat) (config : Config) : Rat :=
  if config.jitter then next + (random * (next * (1 / 5)) - next * (1 / 5) / 2) else next

theorem calculateNextDelay_eq (random d : Rat) (config : Config) :
    calculateNextDelay random d config =
      round (jittered random (min (d * config.backoffMultiplier) config.maxDelay) config) := rfl

theorem jittered_near (config : Config) {random next : Rat} (hr : 0 ≤ random) (hr' : random < 1)
    (hnext : 0 ≤ next) : next - next / 10 ≤ jittered random next config ∧
      jittered random next config ≤ next + next / 10 := by
  have hlow : 0 ≤ random * next := mul_nonneg hr hnext
  have hhigh : random * next ≤ next := mul_le_of_le_one_left hnext hr'.le
  unfold jittered
  split <;> constructor <;> linarith

section Bounds

variable (hinit : 0 < config.initialDelay) (hmax : config.initialDelay ≤ config.maxDelay)
  (hmult : 1 ≤ config.backoffMultiplier)

include hinit hmax hmult

theorem capped_nonneg {d : Rat} (hd : 0 ≤ d) :
    0 ≤ min (d * config.backoffMultiplier) config.maxDelay :=
  le_min (mul_nonneg hd (zero_le_one.trans hmult)) (hinit.le.trans hmax)

theorem delayAt_nonneg (env : Environment α) (attempt : Nat) : 0 ≤ delayAt config env attempt := by
  induction attempt using delayAt.induct with
  | case1 | case2 => exact hinit.le
  | case3 attempt ih =>
    have hnext := capped_nonneg hinit hmax hmult ih
    obtain ⟨hlow, -⟩ := jittered_near config (env.random_nonneg (attempt + 1))
      (env.random_lt_one (attempt + 1)) hnext
    rw [delayAt, calculateNextDelay_eq]
    exact round_nonneg (le_trans (by linarith) hlow)

/-- **One backoff.** Each delay is within a tenth, and the rounding, of the one before times the
multiplier, capped: the error of every backoff is passed on to the next. -/
theorem delayAt_near (env : Environment α) {attempt : Nat} (hpos : 1 ≤ attempt) :
    |delayAt config env (attempt + 1) -
        min (delayAt config env attempt * config.backoffMultiplier) config.maxDelay| ≤
      min (delayAt config env attempt * config.backoffMultiplier) config.maxDelay / 10 + 1 / 2 := by
  have hnext := capped_nonneg hinit hmax hmult (delayAt_nonneg hinit hmax hmult env attempt)
  obtain ⟨hlow, hhigh⟩ := jittered_near config (env.random_nonneg attempt)
    (env.random_lt_one attempt) hnext
  rw [delayAt_succ config env hpos, calculateNextDelay_eq, abs_le]
  generalize min (delayAt config env attempt * config.backoffMultiplier) config.maxDelay = next
    at hlow hhigh
  have hle := round_le (jittered (env.random attempt) next config)
  have hge := le_round_add (jittered (env.random attempt) next config)
  constructor <;> linarith

theorem delayAt_le (env : Environment α) {attempt : Nat} (hpos : 2 ≤ attempt) :
    delayAt config env attempt ≤ 11 / 10 * config.maxDelay + 1 / 2 := by
  obtain ⟨previous, rfl⟩ := Nat.exists_eq_add_of_le' hpos
  have hnear := delayAt_near hinit hmax hmult env (Nat.le_add_left 1 previous)
  have hcap := min_le_right (delayAt config env (previous + 1) * config.backoffMultiplier)
    config.maxDelay
  have hupper := (abs_le.mp hnear).2
  linarith

end Bounds

theorem IsLast.lt_of_failed {n k m : Nat} (h : IsLast print config env n k)
    (hfail : ∀ i, 1 ≤ i → i ≤ m → i ≤ n → decisive print config env i = false) {i : Nat}
    (him : i ≤ m + 1) (hin : i ≤ n) : i ≤ k := by
  by_contra hlt
  obtain ⟨hpos, hle, -, hstop⟩ := h
  cases hstop with
  | inl heq => omega
  | inr hd =>
    have hnot := hfail k hpos (by omega) hle
    exact absurd (hnot.symm.trans hd) (by decide)

/-- **The sleeps of a call**: none before the second attempt, then one backoff behind. -/
theorem sleeps_from_third {α : Type} (print : Rat → Text) (options : RetryOptions)
    (env : Environment α) (manager : Manager) (hn : 1 ≤ options.resolve.maxAttempts)
    (hallowed : (admission options.resolve env manager).1 = true)
    (hinit : 0 < options.resolve.initialDelay)
    (hmax : options.resolve.initialDelay ≤ options.resolve.maxDelay)
    (hmult : 1 ≤ options.resolve.backoffMultiplier) (m : Nat)
    (hfail : ∀ i, 1 ≤ i → i ≤ m → i ≤ options.resolve.maxAttempts →
      decisive print options.resolve env i = false) :
    sleepsBefore (executeWithRetry print options env manager).2.log 2 = [] ∧
      (∀ attempt, 3 ≤ attempt → attempt ≤ m + 1 → attempt ≤ options.resolve.maxAttempts →
        sleepsBefore (executeWithRetry print options env manager).2.log attempt =
          [delayAt options.resolve env (attempt - 1)] ∧
        delayAt options.resolve env (attempt - 1) ≤ 11 / 10 * options.resolve.maxDelay + 1 / 2) ∧
      (OnSchedule options.resolve (executeWithRetry print options env manager).2.log m ↔
        m = 0 ∨ options.resolve.maxAttempts = 1) := by
  obtain ⟨-, hlog⟩ := executeWithRetry_eq print options env manager hn hallowed
  have hlast := isLast_lastAttempt print options.resolve env hn
  rw [hlog]
  have hsleeps := sleepsBefore_trace (fun i hpos hlt => hlast.2.2.1 i hpos hlt)
  have hsecond : sleepsBefore (trace print options.resolve env 1
      (lastAttempt print options.resolve env)) 2 = [] := by
    rw [hsleeps, if_neg (by omega)]
  refine ⟨hsecond, ?_, ?_, ?_⟩
  · intro attempt hlate hm hle
    refine ⟨?_, delayAt_le hinit hmax hmult env (by omega)⟩
    rw [hsleeps, if_pos ⟨hlate, hlast.lt_of_failed hfail hm hle⟩]
  · intro hsched
    by_contra hneg
    obtain ⟨ms, hms, -⟩ := hsched 2 (by omega) (by omega) (by omega)
    exact absurd (hsecond.symm.trans hms) (by simp)
  · intro hnone attempt htwo hm hle
    omega

def oneSecond : RetryOptions := { initialDelay := some 1000, maxDelay := some 1000 }

def alwaysReset : Environment Nat where
  outcome _ := .error { code := some (ofString "ECONNRESET") }
  random _ := 3 / 4
  random_nonneg _ := by norm_num
  random_lt_one _ := by norm_num
  now attempt := attempt
  others _ := []

/-- What a run that always fails does. -/
def resetLog : List Effect :=
  (executeWithRetry (fun _ => []) oneSecond alwaysReset {}).2.log

theorem sleeps_from_third_alwaysReset : sleepsBefore resetLog 2 = [] ∧
      (∀ attempt, 3 ≤ attempt → attempt ≤ 2 + 1 → attempt ≤ oneSecond.resolve.maxAttempts →
        sleepsBefore resetLog attempt = [delayAt oneSecond.resolve alwaysReset (attempt - 1)] ∧
        delayAt oneSecond.resolve alwaysReset (attempt - 1) ≤
          11 / 10 * oneSecond.resolve.maxDelay + 1 / 2) ∧
      (OnSchedule oneSecond.resolve resetLog 2 ↔ 2 = 0 ∨ oneSecond.resolve.maxAttempts = 1) := by
  have hfail : ∀ i, decisive (fun _ => []) oneSecond.resolve alwaysReset i = false := by
    intro i
    rfl
  exact sleeps_from_third (fun _ => []) oneSecond alwaysReset {} (by decide) (by decide)
    (by decide +kernel) (by decide +kernel) (by decide +kernel) 2 fun i _ _ _ => hfail i

theorem oneSecond_off_schedule : sleepsBefore resetLog 2 = [] ∧
      sleepsBefore resetLog 3 = [1050] ∧ oneSecond.resolve.maxDelay < 1050 ∧
      ¬ OnSchedule oneSecond.resolve resetLog 2 := by
  have hsecond : sleepsBefore resetLog 2 = [] := by decide +kernel
  refine ⟨hsecond, by decide +kernel, by decide +kernel, ?_⟩
  intro hsched
  obtain ⟨ms, hms, -⟩ := hsched 2 (by decide) (by decide) (by decide)
  exact absurd (hsecond.symm.trans hms) (by simp)

end Bridge.Retry
