import Bridge.Breaker.Circuit

/-!
# The circuit breaker of the retry manager

`RetryManager` has a breaker class of its own, which is meant to open when enough failures fall into
a sliding window of time. The window is a list of numbers that three methods read in three ways:
`updateMonitoringWindow` pushes `0` for a failure and `1` for a success, but drops the old elements
as if they were **times**; and `getRecentFailures` makes up the time of an element from its place in
the list, a second apart.
-/

namespace Bridge.Breaker.Retry

open Lib List

inductive State
  | closed
  | opened
  | halfOpen
  deriving DecidableEq

structure CircuitBreakerConfig where
  failureThreshold : Nat
  resetTimeout : Int
  monitoringPeriod : Int

structure CircuitBreaker where
  state : State := .closed
  failures : Nat := 0
  successes : Nat := 0
  lastFailureTime : Option Time := none
  nextAttemptTime : Option Time := none
  monitoringWindow : List Int := []

/-- The settings of every breaker that `getOrCreateCircuitBreaker` makes. -/
def managed : CircuitBreakerConfig where
  failureThreshold := 5
  resetTimeout := 60000
  monitoringPeriod := 120000

namespace CircuitBreaker

variable (cfg : CircuitBreakerConfig) (now : Time) (b : CircuitBreaker)

def shouldTransitionToHalfOpen : Bool := b.nextAttemptTime.any fun t => decide (t ≤ now)

def transitionTo (newState : State) : CircuitBreaker :=
  let b := { b with state := newState }
  match newState with
  | .opened => { b with nextAttemptTime := some (now + cfg.resetTimeout) }
  | .closed => { b with failures := 0, nextAttemptTime := none }
  | .halfOpen => b

def updateMonitoringWindow (success : Bool) : CircuitBreaker :=
  let windowStart := now - cfg.monitoringPeriod
  { b with
    monitoringWindow := b.monitoringWindow.filter
      (fun timestamp => decide (windowStart < timestamp)) ++ [if success then 1 else 0] }

def getRecentFailures : Nat :=
  let windowStart := now - cfg.monitoringPeriod
  (b.monitoringWindow.zipIdx.filter fun x =>
    let timestamp := now - (b.monitoringWindow.length - x.2) * 1000
    decide (windowStart < timestamp) && x.1 == 0).length

def shouldOpen : Bool := decide (cfg.failureThreshold ≤ b.getRecentFailures cfg now)

def canExecute : Bool × CircuitBreaker :=
  match b.state with
  | .closed => (true, b)
  | .opened =>
    if b.shouldTransitionToHalfOpen now then (true, b.transitionTo cfg now .halfOpen) else
      (false, b)
  | .halfOpen => (true, b)

def recordSuccess : CircuitBreaker :=
  let b := { b with successes := b.successes + 1 }
  let b := if b.state = .halfOpen then b.transitionTo cfg now .closed else b
  b.updateMonitoringWindow cfg now true

def recordFailure : CircuitBreaker :=
  let b := { b with failures := b.failures + 1, lastFailureTime := some now }
  let b := b.updateMonitoringWindow cfg now false
  if (b.state = .closed ∨ b.state = .halfOpen) ∧ b.shouldOpen cfg now then
    b.transitionTo cfg now .opened
  else b

def reset : CircuitBreaker := {}

end CircuitBreaker

structure World where
  now : Time
  breaker : CircuitBreaker
  failures : List Time

inductive Action
  | canExecute
  | recordSuccess
  | recordFailure
  | reset
  | tick (t : Time)

namespace World

def recentFailures (cfg : CircuitBreakerConfig) (w : World) : Nat :=
  ((w.now :: w.failures).filter fun t => decide (w.now - cfg.monitoringPeriod < t)).length

def step (cfg : CircuitBreakerConfig) (w : World) : Action → Option World
  | .canExecute => some { w with breaker := (w.breaker.canExecute cfg w.now).2 }
  | .recordSuccess =>
    some { w with
      breaker := w.breaker.recordSuccess cfg w.now
      -- half open, a success closes the breaker
      failures := if w.breaker.state = .halfOpen then [] else w.failures }
  | .recordFailure =>
    some { w with
      breaker := w.breaker.recordFailure cfg w.now
      failures := w.now :: w.failures }
  | .reset => some { w with breaker := .reset, failures := [] }
  | .tick t => if w.now ≤ t then some { w with now := t } else none

def init (now : Time) : World := ⟨now, {}, []⟩

end World

/-! ## What it counts -/

/-- The window has flags in it, and the clock is past the moment at which a flag could be a time in
the window. -/
structure Forgetful (cfg : CircuitBreakerConfig) (now : Time) (b : CircuitBreaker) : Prop where
  clock : cfg.monitoringPeriod < now
  flags : ∀ x ∈ b.monitoringWindow, x ≤ 1

namespace Forgetful

variable {cfg : CircuitBreakerConfig} {now : Time} {b : CircuitBreaker}

/-- **Every call forgets all calls before it.** -/
theorem updateMonitoringWindow (h : Forgetful cfg now b) (success : Bool) :
    (b.updateMonitoringWindow cfg now success).monitoringWindow = [if success then 1 else 0] := by
  have hnone : b.monitoringWindow.filter
      (fun timestamp => decide (now - cfg.monitoringPeriod < timestamp)) = [] := by
    refine filter_eq_nil_iff.mpr fun x hx hrecent => ?_
    have hstart : 1 ≤ now - cfg.monitoringPeriod := Int.sub_pos_of_lt h.clock
    have hx' : 1 < x := Int.lt_of_le_of_lt hstart (of_decide_eq_true hrecent)
    exact absurd (h.flags x hx) (Int.not_le.mpr hx')
  simp [CircuitBreaker.updateMonitoringWindow, hnone, nil_append]

theorem getRecentFailures_le (cfg : CircuitBreakerConfig) (now : Time) {x : Int}
    (hb : b.monitoringWindow = [x]) : b.getRecentFailures cfg now ≤ 1 := by
  refine Nat.le_trans (length_filter_le _ _) ?_
  rw [hb]
  exact Nat.le_refl 1

theorem not_shouldOpen (h : Forgetful cfg now b) (hthreshold : 1 < cfg.failureThreshold) :
    (b.updateMonitoringWindow cfg now false).shouldOpen cfg now = false := by
  have hone := getRecentFailures_le cfg now (h.updateMonitoringWindow false)
  exact decide_eq_false (Nat.not_le.mpr (Nat.lt_of_le_of_lt hone hthreshold))

theorem recordFailure_state (h : Forgetful cfg now b) (hthreshold : 1 < cfg.failureThreshold)
    (hstate : b.state = .closed) : (b.recordFailure cfg now).state = .closed := by
  have hcounted : Forgetful cfg now
      { b with failures := b.failures + 1, lastFailureTime := some now } := ⟨h.clock, h.flags⟩
  simp only [CircuitBreaker.recordFailure, hcounted.not_shouldOpen hthreshold, Bool.false_eq_true,
    and_false, if_false]
  exact hstate

theorem of_window (hclock : cfg.monitoringPeriod < now) (success : Bool)
    (hb : b.monitoringWindow = [if success then 1 else 0]) : Forgetful cfg now b := by
  refine ⟨hclock, fun x hx => ?_⟩
  rw [hb] at hx
  rw [mem_singleton.mp hx]
  cases success <;> decide

theorem recordFailure (h : Forgetful cfg now b) : Forgetful cfg now (b.recordFailure cfg now) := by
  have hcounted : Forgetful cfg now
      { b with failures := b.failures + 1, lastFailureTime := some now } := ⟨h.clock, h.flags⟩
  refine of_window h.clock false ?_
  simp only [CircuitBreaker.recordFailure]
  split
  · exact hcounted.updateMonitoringWindow false
  · exact hcounted.updateMonitoringWindow false

theorem recordSuccess (h : Forgetful cfg now b) : Forgetful cfg now (b.recordSuccess cfg now) := by
  refine of_window h.clock true (updateMonitoringWindow ⟨h.clock, ?_⟩ true)
  split
  · exact h.flags
  · exact h.flags

end Forgetful

/-- By a clock past the first minutes of 1970, the breaker never leaves the closed state. -/
structure World.Stuck (cfg : CircuitBreakerConfig) (w : World) : Prop where
  forgetful : Forgetful cfg w.now w.breaker
  closed : w.breaker.state = .closed

namespace World.Stuck

variable {cfg : CircuitBreakerConfig} {w w' : World} {a : Action}

theorem init {t₀ : Time} (hclock : cfg.monitoringPeriod < t₀) : Stuck cfg (.init t₀) where
  forgetful := ⟨hclock, fun x hx => absurd hx (by simp [World.init])⟩
  closed := rfl

theorem step (hthreshold : 1 < cfg.failureThreshold) (h : Stuck cfg w)
    (hs : w.step cfg a = some w') : Stuck cfg w' := by
  cases a with
  | canExecute =>
    cases hs
    have hsame : { w with breaker := (w.breaker.canExecute cfg w.now).2 } = w := by
      simp [CircuitBreaker.canExecute, h.closed]
    rw [hsame]
    exact h
  | recordSuccess =>
    cases hs
    refine ⟨h.forgetful.recordSuccess, ?_⟩
    simp [CircuitBreaker.recordSuccess, CircuitBreaker.updateMonitoringWindow, h.closed]
  | recordFailure =>
    cases hs
    exact ⟨h.forgetful.recordFailure, h.forgetful.recordFailure_state hthreshold h.closed⟩
  | reset =>
    cases hs
    exact ⟨⟨h.forgetful.clock, fun x hx => absurd hx (by simp [CircuitBreaker.reset])⟩, rfl⟩
  | tick t =>
    simp only [World.step] at hs
    split at hs
    · rename_i hle
      cases hs
      exact ⟨⟨Int.lt_of_lt_of_le h.forgetful.clock hle, h.forgetful.flags⟩, h.closed⟩
    · cases hs

end World.Stuck

/-- **The breaker opens as it is meant to exactly where it is not to open.** -/
theorem opens_iff_recent_iff (t₀ : Time) (hclock : managed.monitoringPeriod < t₀) {w : World}
    (h : Reaches (World.step managed) (fun _ _ => True) (.init t₀) w)
    (hclosed : w.breaker.state = .closed) :
    ((w.breaker.recordFailure managed w.now).state = .opened ↔
        managed.failureThreshold ≤ w.recentFailures managed) ↔
      w.recentFailures managed < managed.failureThreshold := by
  have hstuck := h.invariant (World.Stuck managed) (.init hclock) fun hi _ hs =>
    hi.step (by decide) hs
  have hstays := hstuck.forgetful.recordFailure_state (by decide) hclosed
  have hnot : (w.breaker.recordFailure managed w.now).state ≠ .opened := by
    rw [hstays]
    decide
  exact (iff_false_left hnot).trans Nat.not_le

theorem opens_iff_recent_fourth : ∃ w, exec (World.step managed) (.init 1700000000000)
        [.recordFailure, .recordFailure, .recordFailure] = some w ∧ w.recentFailures managed = 4 ∧
      ((w.breaker.recordFailure managed w.now).state = .opened ↔
        managed.failureThreshold ≤ w.recentFailures managed) := by
  obtain ⟨w, hw, hclosed, hrecent⟩ : ∃ w, exec (World.step managed) (.init 1700000000000)
      [.recordFailure, .recordFailure, .recordFailure] = some w ∧ w.breaker.state = .closed ∧
      w.recentFailures managed = 4 := ⟨_, rfl, by decide, by decide⟩
  refine ⟨w, hw, hrecent, (opens_iff_recent_iff _ (by decide) (reaches_of_exec hw) hclosed).mpr ?_⟩
  rw [hrecent]
  decide

theorem five_failures_closed : ∃ w, exec (World.step managed) (.init 1700000000000)
        [.recordFailure, .recordFailure, .recordFailure, .recordFailure] = some w ∧
      w.breaker.state = .closed ∧ w.recentFailures managed = 5 ∧
      (w.breaker.recordFailure managed w.now).state = .closed :=
  ⟨_, rfl, by decide, by decide, by decide⟩

end Bridge.Breaker.Retry
