import Bridge.Breaker.Circuit

/-!
# One call at a time

Where every operation ends before the next one starts and `reset` is not called, the three counters
of the breaker are not needed: the calls that were let through, with how each ended and when,
already say in which state it is. `stateAfter` and `Admits` read that off the list of calls;
`Watched` is the breaker's world with that list beside it. The two agree, but for the time of the
next attempt: it is a date, which has whole milliseconds.
-/

namespace Bridge.Breaker

open Lib List Option

structure Call where
  ended : Time
  ok : Bool
  deriving DecidableEq

/-! ## What the calls say

The latest call comes first. -/

def consecutiveFailures (calls : List Call) : Nat := (calls.takeWhile fun c => !c.ok).length

def consecutiveSuccesses (calls : List Call) : Nat := (calls.takeWhile fun c => c.ok).length

/-- The state between two calls. A closed breaker opens at the call that makes it
`failureThreshold` failures in a row. One that is not closed has been opened by a failure and has
not been closed since, so the successes in a row are those of half-open calls. -/
def stateAfter (cfg : CircuitBreakerConfig) : List Call → CircuitBreakerState
  | [] => .CLOSED
  | c :: calls =>
    match stateAfter cfg calls, c.ok with
    | .CLOSED, true => .CLOSED
    | .CLOSED, false =>
      if consecutiveFailures (c :: calls) = cfg.failureThreshold then .OPEN else .CLOSED
    | _, true =>
      if consecutiveSuccesses (c :: calls) = cfg.halfOpenMaxAttempts then .CLOSED else .HALF_OPEN
    | _, false => .OPEN

/-- The state while an operation runs that was let through after these calls. -/
def stateDuring (cfg : CircuitBreakerConfig) (calls : List Call) : CircuitBreakerState :=
  if stateAfter cfg calls = .OPEN then .HALF_OPEN else stateAfter cfg calls

/-- When the breaker last opened: a call after which it is open has opened it. -/
def lastOpening (cfg : CircuitBreakerConfig) : List Call → Option Time
  | [] => none
  | c :: calls =>
    if stateAfter cfg (c :: calls) = .OPEN then some c.ended else lastOpening cfg calls

/-- `t` is not within `resetTimeout` of the last opening. -/
def Admits (cfg : CircuitBreakerConfig) (calls : List Call) (t : Time) : Prop :=
  ∀ opened ∈ lastOpening cfg calls, opened + cfg.resetTimeout ≤ t

/-- The breaker's own time for the next attempt has come. -/
def Due (cfg : CircuitBreakerConfig) (calls : List Call) (t : Time) : Prop :=
  ∀ opened ∈ lastOpening cfg calls, due cfg opened ≤ t

section Calls

variable {cfg : CircuitBreakerConfig} {t : Time} {calls : List Call}

@[simp] theorem consecutiveFailures_ok : consecutiveFailures (⟨t, true⟩ :: calls) = 0 := rfl

@[simp] theorem consecutiveFailures_failed :
    consecutiveFailures (⟨t, false⟩ :: calls) = consecutiveFailures calls + 1 := rfl

@[simp] theorem consecutiveSuccesses_ok :
    consecutiveSuccesses (⟨t, true⟩ :: calls) = consecutiveSuccesses calls + 1 := rfl

@[simp] theorem consecutiveSuccesses_failed : consecutiveSuccesses (⟨t, false⟩ :: calls) = 0 := rfl

theorem stateAfter_ok_of_closed (h : stateAfter cfg calls = .CLOSED) :
    stateAfter cfg (⟨t, true⟩ :: calls) = .CLOSED := by
  simp [stateAfter, h]

theorem stateAfter_failed_of_closed (h : stateAfter cfg calls = .CLOSED) :
    stateAfter cfg (⟨t, false⟩ :: calls) =
      if consecutiveFailures calls + 1 = cfg.failureThreshold then .OPEN else .CLOSED := by
  simp only [stateAfter, h]
  rfl

theorem stateAfter_ok_of_not_closed (h : stateAfter cfg calls ≠ .CLOSED) :
    stateAfter cfg (⟨t, true⟩ :: calls) =
      if consecutiveSuccesses calls + 1 = cfg.halfOpenMaxAttempts then .CLOSED
      else .HALF_OPEN := by
  cases hs : stateAfter cfg calls with
  | CLOSED => exact absurd hs h
  | OPEN | HALF_OPEN =>
    simp only [stateAfter, hs]
    rfl

theorem stateAfter_failed_of_not_closed (h : stateAfter cfg calls ≠ .CLOSED) :
    stateAfter cfg (⟨t, false⟩ :: calls) = .OPEN := by
  cases hs : stateAfter cfg calls with
  | CLOSED => exact absurd hs h
  | OPEN | HALF_OPEN => simp [stateAfter, hs]

theorem exists_failed_of_open (h : stateAfter cfg calls = .OPEN) :
    ∃ t rest, calls = ⟨t, false⟩ :: rest := by
  cases calls with
  | nil => simp [stateAfter] at h
  | cons c calls =>
    obtain ⟨t, ok⟩ := c
    cases ok with
    | false => exact ⟨t, calls, rfl⟩
    | true =>
      by_cases hc : stateAfter cfg calls = .CLOSED
      · exact absurd ((stateAfter_ok_of_closed hc).symm.trans h) (by decide)
      · rw [stateAfter_ok_of_not_closed hc] at h
        split at h <;> exact absurd h (by decide)

theorem consecutiveSuccesses_of_open (h : stateAfter cfg calls = .OPEN) :
    consecutiveSuccesses calls = 0 := by
  obtain ⟨t, rest, rfl⟩ := exists_failed_of_open h
  exact consecutiveSuccesses_failed

theorem lastOpening_of_open {c : Call} (h : stateAfter cfg (c :: calls) = .OPEN) :
    lastOpening cfg (c :: calls) = some c.ended := if_pos h

theorem lastOpening_of_not_open {c : Call} (h : stateAfter cfg (c :: calls) ≠ .OPEN) :
    lastOpening cfg (c :: calls) = lastOpening cfg calls := if_neg h

theorem stateDuring_ne_open (cfg : CircuitBreakerConfig) (calls : List Call) :
    stateDuring cfg calls ≠ .OPEN := by
  unfold stateDuring
  split
  · decide
  · exact ‹_›

theorem stateDuring_eq_closed : stateDuring cfg calls = .CLOSED ↔ stateAfter cfg calls =
    .CLOSED := by
  unfold stateDuring
  split
  · simp_all
  · exact Iff.rfl

end Calls

theorem CircuitBreaker.execute_isOk (b : CircuitBreaker) (now : Time) :
    (b.execute now).1.isOk = true ↔
      b.state ≠ .OPEN ∨ ∃ next, b.nextAttemptTime = some next ∧ next ≤ now := by
  unfold CircuitBreaker.execute
  split
  · rename_i hopen
    rw [or_iff_right (not_not_intro hopen)]
    split
    · rename_i hreset
      refine ⟨fun _ => ?_, fun _ => rfl⟩
      simpa [CircuitBreaker.shouldAttemptReset, Option.any_eq_true] using hreset
    · rename_i hreset
      refine ⟨fun h => absurd h Bool.false_ne_true, fun h => absurd ?_ hreset⟩
      simpa [CircuitBreaker.shouldAttemptReset, Option.any_eq_true] using h
  · exact ⟨fun _ => .inl ‹_›, fun _ => rfl⟩

/-! ## The breaker with its calls beside it -/

structure Watched where
  world : World
  calls : List Call

namespace Watched

def init (now : Time) : Watched := ⟨.init now, []⟩

def record (now : Time) (calls : List Call) : Action → List Call
  | .settle _ ok => ⟨now, ok⟩ :: calls
  | .execute | .reset | .tick _ => calls

def step (cfg : CircuitBreakerConfig) (w : Watched) (a : Action) : Option Watched :=
  (w.world.step cfg a).map fun world => ⟨world, record w.world.now w.calls a⟩

/-- `execute` is called when no operation is running, and `reset` never. -/
def Sequential (w : Watched) : Action → Prop
  | .execute => w.world.inFlight = []
  | .reset => False
  | .settle _ _ | .tick _ => True

instance (w : Watched) (a : Action) : Decidable (Sequential w a) := by
  cases a <;> dsimp only [Sequential] <;> infer_instance

def stateNow (cfg : CircuitBreakerConfig) (w : Watched) : CircuitBreakerState :=
  if w.world.inFlight = [] then stateAfter cfg w.calls else stateDuring cfg w.calls

end Watched

/-- The breaker is as its calls say, and each counter counts where its state needs it. -/
structure Agrees (cfg : CircuitBreakerConfig) (w : Watched) : Prop where
  sound : Sound cfg w.world.breaker
  single : w.world.inFlight.length ≤ 1
  state : w.world.breaker.state = w.stateNow cfg
  failures : w.world.breaker.state = .CLOSED →
    w.world.breaker.failures = consecutiveFailures w.calls
  successes : w.world.breaker.state = .HALF_OPEN →
    w.world.breaker.halfOpenAttempts = consecutiveSuccesses w.calls
  opened : w.world.breaker.state = .OPEN → ∃ t, lastOpening cfg w.calls = some t ∧
    t ≤ w.world.now ∧ w.world.breaker.nextAttemptTime = some (dateOf (t + cfg.resetTimeout))
  passed : w.world.breaker.state ≠ .OPEN → Due cfg w.calls w.world.now

namespace Agrees

variable {cfg : CircuitBreakerConfig} {w w' : Watched} {a : Action}

theorem init (hf : 1 ≤ cfg.failureThreshold) (now : Time) : Agrees cfg (.init now) where
  sound := .of_closed rfl hf
  single := Nat.zero_le 1
  state := rfl
  failures _ := rfl
  successes h := by cases h
  opened h := by cases h
  passed _ _ ht := absurd ht (by simp [Watched.init, lastOpening])

theorem state_idle (h : Agrees cfg w) (hidle : w.world.inFlight = []) :
    w.world.breaker.state = stateAfter cfg w.calls := h.state.trans (if_pos hidle)

theorem state_busy (h : Agrees cfg w) (hbusy : w.world.inFlight ≠ []) :
    w.world.breaker.state = stateDuring cfg w.calls := h.state.trans (if_neg hbusy)

theorem tick (h : Agrees cfg w) {t : Time} (hle : w.world.now ≤ t) :
    Agrees cfg ⟨{ w.world with now := t }, w.calls⟩ where
  sound := h.sound
  single := h.single
  state := h.state
  failures := h.failures
  successes := h.successes
  opened hopen := by
    obtain ⟨o, ho, hpast, hnext⟩ := h.opened hopen
    exact ⟨o, ho, Int.le_trans hpast hle, hnext⟩
  passed hne o ho := Int.le_trans (h.passed hne o ho) hle

theorem start (h : Agrees cfg w) (hidle : w.world.inFlight = [])
    (hne : w.world.breaker.state ≠ .OPEN) :
    Agrees cfg ⟨w.world.start w.world.breaker, w.calls⟩ where
  sound := h.sound
  single := by simp [World.start, hidle]
  state := by
    have hafter : stateAfter cfg w.calls ≠ .OPEN := h.state_idle hidle ▸ hne
    have hduring : stateDuring cfg w.calls = stateAfter cfg w.calls := if_neg hafter
    exact (h.state_idle hidle).trans hduring.symm
  failures := h.failures
  successes := h.successes
  opened := h.opened
  passed := h.passed

theorem probe (hm : 1 ≤ cfg.halfOpenMaxAttempts) (h : Agrees cfg w)
    (hidle : w.world.inFlight = []) (hopen : w.world.breaker.state = .OPEN) {next : Time}
    (hnext : w.world.breaker.nextAttemptTime = some next) (hle : next ≤ w.world.now) :
    Agrees cfg ⟨w.world.start w.world.breaker.transitionToHalfOpen, w.calls⟩ where
  sound := .of_halfOpen rfl hm
  single := by simp [World.start, hidle]
  state := by
    have hafter : stateAfter cfg w.calls = .OPEN := (h.state_idle hidle).symm.trans hopen
    exact (if_pos hafter).symm
  failures hc := by cases hc
  successes _ := by
    have hafter : stateAfter cfg w.calls = .OPEN := (h.state_idle hidle).symm.trans hopen
    exact (consecutiveSuccesses_of_open hafter).symm
  opened hc := by cases hc
  passed _ o ho := by
    obtain ⟨t, ht, hpast, hn⟩ := h.opened hopen
    obtain rfl := some.inj (ht.symm.trans ho)
    obtain rfl := some.inj (hn.symm.trans hnext)
    exact max_le hpast hle

variable {calls : List Call} {world : World}

theorem of_closed (hidle : world.inFlight = [])
    (hb : world.breaker.state = .CLOSED) (hs : stateAfter cfg calls = .CLOSED)
    (hlt : world.breaker.failures < cfg.failureThreshold)
    (hfail : world.breaker.failures = consecutiveFailures calls)
    (hpass : Due cfg calls world.now) : Agrees cfg ⟨world, calls⟩ where
  sound := .of_closed hb hlt
  single := by simp [hidle]
  state := (hb.trans hs.symm).trans (if_pos hidle).symm
  failures _ := hfail
  successes hc := absurd (hb.symm.trans hc) (by decide)
  opened hc := absurd (hb.symm.trans hc) (by decide)
  passed _ := hpass

theorem of_open (hidle : world.inFlight = []) (hb : world.breaker.state = .OPEN) {ok : Bool}
    (hs : stateAfter cfg (⟨world.now, ok⟩ :: calls) = .OPEN)
    (hnext : world.breaker.nextAttemptTime = some (dateOf (world.now + cfg.resetTimeout))) :
    Agrees cfg ⟨world, ⟨world.now, ok⟩ :: calls⟩ where
  sound := .of_open hb (by simp [hnext])
  single := by simp [hidle]
  state := (hb.trans hs.symm).trans (if_pos hidle).symm
  failures hc := absurd (hb.symm.trans hc) (by decide)
  successes hc := absurd (hb.symm.trans hc) (by decide)
  opened _ := ⟨world.now, lastOpening_of_open hs, le_rfl, hnext⟩
  passed hne := absurd hb hne

theorem of_halfOpen (hidle : world.inFlight = [])
    (hb : world.breaker.state = .HALF_OPEN) (hs : stateAfter cfg calls = .HALF_OPEN)
    (hlt : world.breaker.halfOpenAttempts < cfg.halfOpenMaxAttempts)
    (hsucc : world.breaker.halfOpenAttempts = consecutiveSuccesses calls)
    (hpass : Due cfg calls world.now) : Agrees cfg ⟨world, calls⟩ where
  sound := .of_halfOpen hb hlt
  single := by simp [hidle]
  state := (hb.trans hs.symm).trans (if_pos hidle).symm
  failures hc := absurd (hb.symm.trans hc) (by decide)
  successes _ := hsucc
  opened hc := absurd (hb.symm.trans hc) (by decide)
  passed _ := hpass

variable {op : Nat}

theorem busy (h : Agrees cfg w) (hop : op ∈ w.world.inFlight) : w.world.inFlight = [op] := by
  obtain ⟨op', hop'⟩ := length_eq_one_iff.mp (Nat.le_antisymm h.single (length_pos_of_mem hop))
  rw [hop', mem_singleton] at hop
  rw [hop', hop]

theorem due_cons (h : Agrees cfg w) (hne : w.world.breaker.state ≠ .OPEN) {c : Call}
    (hs : stateAfter cfg (c :: w.calls) ≠ .OPEN) : Due cfg (c :: w.calls) w.world.now := by
  intro o ho
  rw [lastOpening_of_not_open hs] at ho
  exact h.passed hne o ho

section Threshold

variable (hf : 1 ≤ cfg.failureThreshold)
include hf

theorem settle_closed (h : Agrees cfg w) (hop : w.world.inFlight = [op])
    (hb : w.world.breaker.state = .CLOSED) (hs : stateAfter cfg w.calls = .CLOSED) (ok : Bool) :
    Agrees cfg ⟨w.world.settle cfg op ok, ⟨w.world.now, ok⟩ :: w.calls⟩ := by
  have hne : w.world.breaker.state ≠ .OPEN := hb ▸ by decide
  have hidle : (w.world.settle cfg op ok).inFlight = [] := by simp [World.settle, hop]
  have hlt := h.sound.closed hb
  have hcount := h.failures hb
  cases ok with
  | true =>
    have hafter := stateAfter_ok_of_closed (t := w.world.now) hs
    have hpass := h.due_cons hne (c := ⟨w.world.now, true⟩) (hafter ▸ by decide)
    refine of_closed hidle ?_ hafter ?_ ?_ hpass <;>
      simp only [World.settle, CircuitBreaker.settle, CircuitBreaker.onSuccess, hb, if_true,
        consecutiveFailures_ok]
    exact hf
  | false =>
    have hafter := stateAfter_failed_of_closed (t := w.world.now) hs
    by_cases hfull : consecutiveFailures w.calls + 1 = cfg.failureThreshold
    · -- the failure that fills the threshold opens the breaker
      rw [if_pos hfull] at hafter
      have hle : cfg.failureThreshold ≤ w.world.breaker.failures + 1 := by omega
      refine of_open hidle ?_ hafter ?_ <;>
        simp only [World.settle, CircuitBreaker.settle, CircuitBreaker.onFailure, hb,
          Bool.false_eq_true, if_false, if_pos hle] <;> rfl
    · rw [if_neg hfull] at hafter
      have hle : ¬ cfg.failureThreshold ≤ w.world.breaker.failures + 1 := by omega
      have hpass := h.due_cons hne (c := ⟨w.world.now, false⟩) (hafter ▸ by decide)
      refine of_closed hidle ?_ hafter ?_ ?_ hpass <;>
        simp only [World.settle, CircuitBreaker.settle, CircuitBreaker.onFailure, hb,
          Bool.false_eq_true, if_false, if_neg hle, consecutiveFailures_failed]
      · exact Nat.lt_of_not_le hle
      · exact congrArg (· + 1) hcount

theorem settle_halfOpen (h : Agrees cfg w) (hop : w.world.inFlight = [op])
    (hb : w.world.breaker.state = .HALF_OPEN) (hs : stateAfter cfg w.calls ≠ .CLOSED) (ok : Bool) :
    Agrees cfg ⟨w.world.settle cfg op ok, ⟨w.world.now, ok⟩ :: w.calls⟩ := by
  have hne : w.world.breaker.state ≠ .OPEN := hb ▸ by decide
  have hidle : (w.world.settle cfg op ok).inFlight = [] := by simp [World.settle, hop]
  have hlt := h.sound.halfOpen hb
  have hcount := h.successes hb
  cases ok with
  | false =>
    have hafter := stateAfter_failed_of_not_closed (t := w.world.now) hs
    refine of_open hidle ?_ hafter ?_ <;>
      simp only [World.settle, CircuitBreaker.settle, CircuitBreaker.onFailure, hb,
        Bool.false_eq_true, if_false] <;> rfl
  | true =>
    have hafter := stateAfter_ok_of_not_closed (t := w.world.now) hs
    by_cases hfull : consecutiveSuccesses w.calls + 1 = cfg.halfOpenMaxAttempts
    · -- the success that fills the quota closes it, and the failures are forgotten
      rw [if_pos hfull] at hafter
      have hle : cfg.halfOpenMaxAttempts ≤ w.world.breaker.halfOpenAttempts + 1 := by omega
      have hpass := h.due_cons hne (c := ⟨w.world.now, true⟩) (hafter ▸ by decide)
      refine of_closed hidle ?_ hafter ?_ ?_ hpass <;>
        simp only [World.settle, CircuitBreaker.settle, CircuitBreaker.onSuccess, hb, if_true,
          if_pos hle, consecutiveFailures_ok, CircuitBreaker.transitionToClosed]
      exact hf
    · rw [if_neg hfull] at hafter
      have hle : ¬ cfg.halfOpenMaxAttempts ≤ w.world.breaker.halfOpenAttempts + 1 := by omega
      have hpass := h.due_cons hne (c := ⟨w.world.now, true⟩) (hafter ▸ by decide)
      refine of_halfOpen hidle ?_ hafter ?_ ?_ hpass <;>
        simp only [World.settle, CircuitBreaker.settle, CircuitBreaker.onSuccess, hb, if_true,
          if_neg hle, consecutiveSuccesses_ok]
      · exact Nat.lt_of_not_le hle
      · exact congrArg (· + 1) hcount

theorem settle (h : Agrees cfg w) (hop : op ∈ w.world.inFlight) (ok : Bool) :
    Agrees cfg ⟨w.world.settle cfg op ok, ⟨w.world.now, ok⟩ :: w.calls⟩ := by
  have hone := h.busy hop
  have hduring := h.state_busy (hone ▸ cons_ne_nil op [])
  cases hb : w.world.breaker.state with
  | OPEN => exact absurd (hduring.symm.trans hb) (stateDuring_ne_open cfg w.calls)
  | CLOSED =>
    have hs := stateDuring_eq_closed.mp (hduring.symm.trans hb)
    exact h.settle_closed hf hone hb hs ok
  | HALF_OPEN =>
    have hs : stateAfter cfg w.calls ≠ .CLOSED := by
      intro hc
      have hbc := hduring.trans (stateDuring_eq_closed.mpr hc)
      exact absurd (hb.symm.trans hbc) (by decide)
    exact h.settle_halfOpen hf hone hb hs ok

theorem step (hm : 1 ≤ cfg.halfOpenMaxAttempts)
    (h : Agrees cfg w) (hseq : w.Sequential a) (hs : w.step cfg a = some w') : Agrees cfg w' := by
  obtain ⟨world, hworld, rfl⟩ := map_eq_some_iff.mp hs
  cases World.step_cases hworld with
  | admitted hne => exact h.start hseq hne
  | probed hopen hnext hle => exact h.probe hm hseq hopen hnext hle
  | rejected => exact h
  | settled hop => exact h.settle hf hop _
  | reset => exact hseq.elim
  | ticked hle => exact h.tick hle

end Threshold

theorem execute_iff (h : Agrees cfg w) {t : Time} (hle : w.world.now ≤ t) :
    (w.world.breaker.execute t).1.isOk = true ↔ Due cfg w.calls t := by
  rw [CircuitBreaker.execute_isOk]
  by_cases hopen : w.world.breaker.state = .OPEN
  · obtain ⟨o, ho, hpast, hnext⟩ := h.opened hopen
    rw [or_iff_right (not_not_intro hopen), hnext, Due, ho]
    simp [due, hpast.trans hle]
  · have hpass : Due cfg w.calls t := fun o ho => Int.le_trans (h.passed hopen o ho) hle
    exact ⟨fun _ => hpass, fun _ => .inl hopen⟩

end Agrees

/-! ## A timeout that is not whole -/

/-- Nothing of the timeout is lost in a date. -/
def Whole (cfg : CircuitBreakerConfig) : Prop :=
  cfg.resetTimeout ≤ 0 ∨ ∃ ms : Int, cfg.resetTimeout = ms

section Timeout

variable {cfg : CircuitBreakerConfig} {w : Watched} {t t' : Time}

theorem due_le_iff (hwhole : Whole cfg) (hle : t ≤ t') :
    due cfg t ≤ t' ↔ (t + cfg.resetTimeout : Rat) ≤ t' := by
  rw [due, max_le_iff, and_iff_right hle]
  obtain hneg | ⟨ms, hms⟩ := hwhole
  · have hearly : (t + cfg.resetTimeout : Rat) ≤ t := by linarith
    have hdate : dateOf (t + cfg.resetTimeout) ≤ t :=
  (dateOf_mono hearly).trans_eq (dateOf_intCast t)
    exact iff_of_true (hdate.trans hle) (hearly.trans (by exact_mod_cast hle))
  · rw [hms, ← Int.cast_add, dateOf_intCast]
    exact Int.cast_le.symm

/-- After midnight of the first of January 1970, a date before the timeout has passed. -/
theorem due_lt (hwhole : ¬ Whole cfg) (ht : 0 ≤ t) : (due cfg t : Rat) < t + cfg.resetTimeout := by
  obtain ⟨hpos, hfraction⟩ := not_or.mp hwhole
  have hpos := not_le.mp hpos
  have ht' : (0 : Rat) ≤ t := by exact_mod_cast ht
  have hdate : dateOf (t + cfg.resetTimeout) = ⌊(t + cfg.resetTimeout : Rat)⌋ :=
    if_pos (by linarith)
  rw [due, hdate, Int.cast_max, max_lt_iff]
  refine ⟨by linarith, lt_of_le_of_ne (Int.floor_le _) fun heq => ?_⟩
  refine hfraction ⟨⌊(t + cfg.resetTimeout : Rat)⌋ - t, ?_⟩
  rw [Int.cast_sub, heq, add_sub_cancel_left]

theorem Agrees.opened_le (h : Agrees cfg w) {o : Time} (ho : o ∈ lastOpening cfg w.calls) :
    o ≤ w.world.now := by
  by_cases hopen : w.world.breaker.state = .OPEN
  · obtain ⟨t, ht, hpast, -⟩ := h.opened hopen
    exact some.inj (ht.symm.trans ho) ▸ hpast
  · exact (le_max_left _ _).trans (h.passed hopen o ho)

/-- One more call is let through, and fails at once. -/
def Watched.failed (cfg : CircuitBreakerConfig) (w : Watched) : Watched :=
  ⟨(w.world.start w.world.breaker).settle cfg w.world.ops false, ⟨w.world.now, false⟩ :: w.calls⟩

theorem reaches_failed (hidle : w.world.inFlight = []) (hclosed : w.world.breaker.state = .CLOSED) :
    Reaches (Watched.step cfg) Watched.Sequential w (w.failed cfg) := by
  have hstart : w.step cfg .execute = some ⟨w.world.start w.world.breaker, w.calls⟩ := by
    simp [Watched.step, World.step, CircuitBreaker.execute, hclosed, Watched.record]
  have hstarted : Reaches (Watched.step cfg) Watched.Sequential w _ :=
    .single (a := .execute) hidle hstart
  refine hstarted.tail (a := .settle w.world.ops false) trivial ?_
  simp [Watched.step, World.step, World.start, Watched.record, Watched.failed]

theorem stateAfter_replicate {n : Nat} (hn : n < cfg.failureThreshold) :
    stateAfter cfg (.replicate n ⟨t, false⟩) = .CLOSED := by
  induction n with
  | zero => rfl
  | succ n ih =>
    have hcount : consecutiveFailures (.replicate n ⟨t, false⟩) = n := by
      simp [consecutiveFailures]
    rw [replicate_succ, stateAfter_failed_of_closed (ih (by omega)), hcount, if_neg (by omega)]

variable {t₀ : Time}

section Runs

variable (hf : 1 ≤ cfg.failureThreshold) (hm : 1 ≤ cfg.halfOpenMaxAttempts)

include hf hm

theorem agrees_of_reaches (h : Reaches (Watched.step cfg) Watched.Sequential (.init t₀) w) :
    Agrees cfg w :=
  h.invariant (Agrees cfg) (.init hf t₀) fun hi hok hs => hi.step hf hm hok hs

theorem exists_failures (hle : t₀ ≤ t) {n : Nat} (hn : n < cfg.failureThreshold) : ∃ w,
    Reaches (Watched.step cfg) Watched.Sequential (.init t₀) w ∧ w.world.now = t ∧
      w.world.inFlight = [] ∧ w.calls = .replicate n ⟨t, false⟩ := by
  induction n with
  | zero =>
    refine ⟨⟨{ World.init t₀ with now := t }, []⟩, .single (a := .tick t) trivial ?_, rfl, rfl, rfl⟩
    simp [Watched.step, World.step, Watched.init, World.init, hle, Watched.record]
  | succ n ih =>
    obtain ⟨w, hw, hnow, hidle, hcalls⟩ := ih (by omega)
    have hclosed : w.world.breaker.state = .CLOSED := by
      rw [(agrees_of_reaches hf hm hw).state_idle hidle, hcalls, stateAfter_replicate (by omega)]
    refine ⟨w.failed cfg, hw.trans (reaches_failed hidle hclosed), hnow, ?_, ?_⟩
    · simp [Watched.failed, World.settle, World.start, hidle]
    · rw [Watched.failed, hnow, hcalls]
      rfl

/-- The breaker has just opened. -/
theorem exists_opened (hle : t₀ ≤ t) : ∃ w,
    Reaches (Watched.step cfg) Watched.Sequential (.init t₀) w ∧ w.world.now = t ∧
      w.world.breaker.state = .OPEN ∧ lastOpening cfg w.calls = some t ∧
      ∃ earlier, w.world.history = .opened t :: earlier := by
  obtain ⟨n, hn⟩ : ∃ n, cfg.failureThreshold = n + 1 := ⟨_, (Nat.sub_add_cancel hf).symm⟩
  obtain ⟨w, hw, hnow, hidle, hcalls⟩ := exists_failures hf hm hle (n := n) (by omega)
  have hafter : stateAfter cfg w.calls = .CLOSED := hcalls ▸ stateAfter_replicate (by omega)
  have hclosed := ((agrees_of_reaches hf hm hw).state_idle hidle).trans hafter
  have hreach := hw.trans (reaches_failed hidle hclosed)
  have hstate : stateAfter cfg (w.failed cfg).calls = .OPEN := by
    have hcount : consecutiveFailures w.calls + 1 = cfg.failureThreshold := by
      simp [hcalls, consecutiveFailures, hn]
    rw [Watched.failed, stateAfter_failed_of_closed hafter, if_pos hcount]
  have hopen : (w.failed cfg).world.breaker.state = .OPEN := by
    rw [(agrees_of_reaches hf hm hreach).state_idle, hstate]
    simp [Watched.failed, World.settle, World.start, hidle]
  refine ⟨w.failed cfg, hreach, hnow, hopen, hnow ▸ lastOpening_of_open hstate, ?_⟩
  have hhistory : (w.failed cfg).world.history = transition w.world.now w.world.breaker.state
      (w.failed cfg).world.breaker.state ++ .failed w.world.ops ::
        (w.world.start w.world.breaker).history := rfl
  rw [hopen, hclosed, hnow] at hhistory
  exact ⟨_, hhistory⟩

end Runs

theorem reaches_world (h : Reaches (Watched.step cfg) Watched.Sequential (.init t₀) w) :
    Reaches (World.step cfg) (fun _ _ => True) (.init t₀) w.world := by
  induction h with
  | refl => exact .refl
  | tail _ _ hs ih =>
    obtain ⟨world, hworld, rfl⟩ := map_eq_some_iff.mp hs
    exact ih.tail trivial hworld

end Timeout

/-- **What the breaker keeps in every state that overlapping calls reach, iff its timeout is
whole.** -/
theorem breaker_invariants_iff (cfg : CircuitBreakerConfig) (hf : 1 ≤ cfg.failureThreshold)
    (hm : 1 ≤ cfg.halfOpenMaxAttempts) (t₀ : Time) :
    (∀ w, Reaches (World.step cfg) (fun _ _ => True) (.init t₀) w →
      Sound cfg w.breaker ∧ FailsFast cfg w.history ∧
        ∀ now e b, w.breaker.execute now = (.error e, b) → b = w.breaker) ↔ Whole cfg := by
  constructor
  · intro h
    by_contra hwhole
    obtain ⟨w, hw, hnow, hopen, hlast, earlier, hhistory⟩ :=
      exists_opened hf hm (le_max_left t₀ 0)
    -- at the date that the breaker has set, an operation starts
    set t := max t₀ 0
    have hagrees := agrees_of_reaches hf hm hw
    have hle : w.world.now ≤ due cfg t := hnow ▸ le_max_left _ _
    have htick : w.world.step cfg (.tick (due cfg t)) = some { w.world with now := due cfg t } :=
      if_pos hle
    have hstart : World.step cfg { w.world with now := due cfg t } .execute =
        some (World.start { w.world with now := due cfg t }
          w.world.breaker.transitionToHalfOpen) := by
      obtain ⟨o, ho, -, hnext⟩ := hagrees.opened hopen
      obtain rfl := some.inj (hlast.symm.trans ho)
      have hdate : dateOf (t + cfg.resetTimeout) ≤ due cfg t := le_max_right _ _
      simp [World.step, CircuitBreaker.execute, hopen, CircuitBreaker.shouldAttemptReset,
        hnext, hdate]
    obtain ⟨-, hfast, -⟩ := h _ (((reaches_world hw).tail trivial htick).tail trivial hstart)
    have hearly := hfast [] w.world.ops (due cfg t) [.halfOpened] t earlier
      (by simp [World.start, hopen, hhistory, transition, CircuitBreaker.transitionToHalfOpen])
        (by simp)
    exact absurd hearly (not_le.mpr (due_lt hwhole (le_max_right _ _)))
  · intro hwhole w h
    have hkept := kept_of_reaches hf hm h
    refine ⟨hkept.sound, ?_, fun _ _ _ he => CircuitBreaker.execute_error he⟩
    intro later op t' between t earlier hsplit hreset
    have hwaits : (due cfg t : Rat) ≤ t' := hkept.waits later op t' between t earlier hsplit hreset
    have hdue : due cfg t ≤ t' := by exact_mod_cast hwaits
    exact (due_le_iff hwhole ((le_max_left _ _).trans hdue)).mp hdue

theorem breaker_invariants_iff_probing : ∃ w,
    execIf (World.step ⟨1, 10, 1⟩) (fun _ _ => True) (.init 0)
      [.execute, .settle 0 false, .tick 5, .execute, .tick 10, .execute] = some w ∧
    w.breaker.state = .HALF_OPEN ∧ w.inFlight = [1] ∧
    Sound ⟨1, 10, 1⟩ w.breaker ∧ FailsFast ⟨1, 10, 1⟩ w.history ∧
      ∀ now e b, w.breaker.execute now = (.error e, b) → b = w.breaker := by
  have hrun : (execIf (World.step ⟨1, 10, 1⟩) (fun _ _ => True) (.init 0)
      [.execute, .settle 0 false, .tick 5, .execute, .tick 10, .execute]).map
        (fun w => (w.breaker.state, w.inFlight)) = some (.HALF_OPEN, [1]) := by decide +kernel
  obtain ⟨w, hw, hfinal⟩ := map_eq_some_iff.mp hrun
  obtain ⟨hstate, hflight⟩ := Prod.mk.inj hfinal
  have hall := (breaker_invariants_iff ⟨1, 10, 1⟩ (by decide) (by decide) 0).mpr (.inr ⟨10, rfl⟩)
  exact ⟨w, hw, hstate, hflight, hall w (reaches_of_execIf hw)⟩

/-- `resetTimeout` is 1000.5: the breaker that opened at 5000 runs an operation at 6000. -/
theorem starts_before_timeout : (execIf (World.step ⟨1, 2001 / 2, 1⟩) (fun _ _ => True) (.init 5000)
      [.execute, .settle 0 false, .tick 6000, .execute]).map (·.history) =
        some [.started 1 6000, .halfOpened, .opened 5000, .failed 0, .started 0 5000] ∧
    ¬ FailsFast ⟨1, 2001 / 2, 1⟩
      [.started 1 6000, .halfOpened, .opened 5000, .failed 0, .started 0 5000] := by
  refine ⟨by decide +kernel, fun h => ?_⟩
  have hearly := h [] 1 6000 [.halfOpened] 5000 _ rfl (by decide)
  norm_num at hearly

/-- **The calls that were let through give the state**, between calls and while one runs, and which
calls are let through, **iff the timeout is whole.** -/
theorem sequential_history_iff (cfg : CircuitBreakerConfig) (hf : 1 ≤ cfg.failureThreshold)
    (hm : 1 ≤ cfg.halfOpenMaxAttempts) (t₀ : Time) :
    (∀ w, Reaches (Watched.step cfg) Watched.Sequential (.init t₀) w →
      w.world.breaker.state = w.stateNow cfg ∧ ∀ t, w.world.now ≤ t →
          ((w.world.breaker.execute t).1.isOk = true ↔ Admits cfg w.calls t)) ↔ Whole cfg := by
  constructor
  · intro h
    by_contra hwhole
    obtain ⟨w, hw, hnow, -, hlast, -⟩ := exists_opened hf hm (le_max_left t₀ 0)
    have hle : w.world.now ≤ due cfg (max t₀ 0) := hnow ▸ le_max_left _ _
    have hok : (w.world.breaker.execute (due cfg (max t₀ 0))).1.isOk = true := by
      rw [(agrees_of_reaches hf hm hw).execute_iff hle, Due, hlast]
      exact fun o ho => some.inj ho ▸ le_rfl
    have hearly := ((h w hw).2 _ hle).mp hok _ hlast
    exact absurd hearly (not_le.mpr (due_lt hwhole (le_max_right _ _)))
  · intro hwhole w h
    have hagrees := agrees_of_reaches hf hm h
    refine ⟨hagrees.state, fun t hle => (hagrees.execute_iff hle).trans ?_⟩
    exact forall₂_congr fun o ho => due_le_iff hwhole ((hagrees.opened_le ho).trans hle)

theorem sequential_history_iff_probed : ∃ w,
    execIf (Watched.step ⟨2, 10, 2⟩) Watched.Sequential (.init 0)
      [.execute, .settle 0 false, .execute, .settle 1 false, .execute, .tick 10, .execute,
        .settle 2 true] = some w ∧
    w.calls = [⟨10, true⟩, ⟨0, false⟩, ⟨0, false⟩] ∧
    stateAfter ⟨2, 10, 2⟩ w.calls = .HALF_OPEN ∧
    w.world.breaker.state = w.stateNow ⟨2, 10, 2⟩ ∧ ∀ t, w.world.now ≤ t →
        ((w.world.breaker.execute t).1.isOk = true ↔ Admits ⟨2, 10, 2⟩ w.calls t) := by
  have hrun : (execIf (Watched.step ⟨2, 10, 2⟩) Watched.Sequential (.init 0)
      [.execute, .settle 0 false, .execute, .settle 1 false, .execute, .tick 10, .execute,
        .settle 2 true]).map (·.calls) = some [⟨10, true⟩, ⟨0, false⟩, ⟨0, false⟩] := by
    decide +kernel
  obtain ⟨w, hw, hcalls⟩ := map_eq_some_iff.mp hrun
  have hstate : stateAfter ⟨2, 10, 2⟩ w.calls = .HALF_OPEN := hcalls ▸ by decide +kernel
  have hall := (sequential_history_iff ⟨2, 10, 2⟩ (by decide) (by decide) 0).mpr (.inr ⟨10, rfl⟩)
  exact ⟨w, hw, hcalls, hstate, hall w (reaches_of_execIf hw)⟩

/-- `resetTimeout` is 1000.5: half a millisecond before it has passed, a call is let through. -/
theorem execute_before_timeout :
    (execIf (Watched.step ⟨1, 2001 / 2, 1⟩) Watched.Sequential (.init 5000)
      [.execute, .settle 0 false]).map (fun w => (w.calls, (w.world.breaker.execute 6000).1.isOk)) =
        some ([⟨5000, false⟩], true) ∧
    ¬ Admits ⟨1, 2001 / 2, 1⟩ [⟨5000, false⟩] 6000 := by
  refine ⟨by decide +kernel, fun h => ?_⟩
  have hearly := h 5000 rfl
  norm_num at hearly

end Bridge.Breaker
