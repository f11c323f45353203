import Bridge.Lib.Run
import Mathlib.Data.Rat.Floor

/-!
# The circuit breaker of the adapters

`CircuitBreaker` wraps an operation. `execute` decides **when the operation starts** whether it may,
and `onSuccess` and `onFailure` count **when it ends**; between the two any number of other calls
start and end, so each handler runs in whatever state the others have left. A run is therefore a
sequence of starts, ends, calls of `reset` and passing time, in any order, and its history says
which operation started when and how the breaker moved.
-/

namespace Bridge.Breaker

open Lib List

abbrev Time := Int

/-- `new Date(ms)`: a date has whole milliseconds, so a fraction is cut off. -/
def dateOf (ms : Rat) : Time := if 0 ≤ ms then ⌊ms⌋ else ⌈ms⌉

theorem dateOf_intCast (t : Time) : dateOf t = t := by simp [dateOf]

theorem dateOf_mono {x y : Rat} (h : x ≤ y) : dateOf x ≤ dateOf y := by
  unfold dateOf
  split_ifs with hx hy hy
  · exact Int.floor_mono h
  · exact absurd (hx.trans h) hy
  · have hceil : ⌈x⌉ ≤ 0 := Int.ceil_le.mpr (by simpa using (not_le.mp hx).le)
    exact hceil.trans (Int.floor_nonneg.mpr hy)
  · exact Int.ceil_mono h

inductive CircuitBreakerState
  | CLOSED
  | OPEN
  | HALF_OPEN
  deriving DecidableEq

structure CircuitBreakerConfig where
  failureThreshold : Nat
  resetTimeout : Rat
  halfOpenMaxAttempts : Nat

def CircuitBreakerConfig.resolve (failureThreshold : Option Nat) (resetTimeout : Option Rat)
    (halfOpenMaxAttempts : Option Nat) : CircuitBreakerConfig where
  failureThreshold := failureThreshold.getD 5
  resetTimeout := resetTimeout.getD 60000
  halfOpenMaxAttempts := halfOpenMaxAttempts.getD 3

/-- The error's message is `Circuit breaker is OPEN. Next attempt at` the time. -/
structure CircuitBreakerError where
  nextAttempt : Option Time
  state : CircuitBreakerState

structure CircuitBreaker where
  state : CircuitBreakerState := .CLOSED
  failures : Nat := 0
  successes : Nat := 0
  lastFailureTime : Option Time := none
  lastSuccessTime : Option Time := none
  nextAttemptTime : Option Time := none
  halfOpenAttempts : Nat := 0

namespace CircuitBreaker

variable (cfg : CircuitBreakerConfig) (now : Time) (b : CircuitBreaker)

def shouldAttemptReset : Bool := b.nextAttemptTime.any fun t => decide (t ≤ now)

def transitionToOpen : CircuitBreaker :=
  { b with
    state := .OPEN
    nextAttemptTime := some (dateOf (now + cfg.resetTimeout))
    halfOpenAttempts := 0 }

def transitionToHalfOpen : CircuitBreaker :=
  { b with state := .HALF_OPEN, halfOpenAttempts := 0 }

def transitionToClosed : CircuitBreaker :=
  { b with state := .CLOSED, failures := 0, halfOpenAttempts := 0, nextAttemptTime := none }

def reset : CircuitBreaker := {}

def onSuccess : CircuitBreaker :=
  let b := { b with lastSuccessTime := some now, successes := b.successes + 1 }
  match b.state with
  | .HALF_OPEN =>
    let b := { b with halfOpenAttempts := b.halfOpenAttempts + 1 }
    if cfg.halfOpenMaxAttempts ≤ b.halfOpenAttempts then b.transitionToClosed else b
  | .CLOSED => { b with failures := 0 }
  | .OPEN => b

def onFailure : CircuitBreaker :=
  let b := { b with lastFailureTime := some now, failures := b.failures + 1 }
  match b.state with
  | .CLOSED => if cfg.failureThreshold ≤ b.failures then b.transitionToOpen cfg now else b
  | .HALF_OPEN => b.transitionToOpen cfg now
  | .OPEN => b

/-- `execute`, up to the call of the operation. -/
def execute : Except CircuitBreakerError Unit × CircuitBreaker :=
  if b.state = .OPEN then
    if b.shouldAttemptReset now then (.ok (), b.transitionToHalfOpen)
    else (.error ⟨b.nextAttemptTime, b.state⟩, b)
  else (.ok (), b)

/-- `execute`, after the operation. -/
def settle (ok : Bool) : CircuitBreaker := if ok then b.onSuccess cfg now else b.onFailure cfg now

end CircuitBreaker

/-! ## Overlapping calls -/

inductive Event
  | started (op : Nat) (t : Time)
  | succeeded (op : Nat)
  | failed (op : Nat)
  | opened (t : Time)
  | halfOpened
  | closed
  | reset
  deriving DecidableEq

def transition (t : Time) (before after : CircuitBreakerState) : List Event :=
  if after = before then []
  else
    match after with
    | .OPEN => [.opened t]
    | .HALF_OPEN => [.halfOpened]
    | .CLOSED => [.closed]

/-- A breaker in use. Operations are numbered as they start; the history has the latest event
first. -/
structure World where
  now : Time
  breaker : CircuitBreaker
  ops : Nat
  inFlight : List Nat
  history : List Event

inductive Action
  | execute
  | settle (op : Nat) (ok : Bool)
  | reset
  | tick (t : Time)

namespace World

variable (cfg : CircuitBreakerConfig)

/-- The operation has resolved or rejected, and `execute` goes on. -/
def settle (w : World) (op : Nat) (ok : Bool) : World :=
  { w with
    breaker := w.breaker.settle cfg w.now ok
    inFlight := w.inFlight.erase op
    history := transition w.now w.breaker.state (w.breaker.settle cfg w.now ok).state ++
      (if ok then .succeeded op else .failed op) :: w.history }

def start (w : World) (b : CircuitBreaker) : World :=
  { w with
    breaker := b
    ops := w.ops + 1
    inFlight := w.ops :: w.inFlight
    history := .started w.ops w.now :: transition w.now w.breaker.state b.state ++ w.history }

def step (w : World) : Action → Option World
  | .execute =>
    match w.breaker.execute w.now with
    | (.ok (), b) => some (w.start b)
    | (.error _, b) => some { w with breaker := b }
  | .settle op ok => if op ∈ w.inFlight then some (w.settle cfg op ok) else none
  | .reset => some { w with breaker := .reset, history := .reset :: w.history }
  | .tick t => if w.now ≤ t then some { w with now := t } else none

def init (now : Time) : World := ⟨now, {}, 0, [], []⟩

inductive Stepped (w : World) : Action → World → Prop
  | admitted (h : w.breaker.state ≠ .OPEN) : Stepped w .execute (w.start w.breaker)
  | probed {t : Time} (h : w.breaker.state = .OPEN) (ht : w.breaker.nextAttemptTime = some t)
      (hle : t ≤ w.now) : Stepped w .execute (w.start w.breaker.transitionToHalfOpen)
  | rejected (h : w.breaker.state = .OPEN) : Stepped w .execute w
  | settled {op : Nat} {ok : Bool} (h : op ∈ w.inFlight) :
      Stepped w (.settle op ok) (w.settle cfg op ok)
  | reset : Stepped w .reset { w with breaker := .reset, history := .reset :: w.history }
  | ticked {t : Time} (h : w.now ≤ t) : Stepped w (.tick t) { w with now := t }

end World

namespace CircuitBreaker

variable {cfg : CircuitBreakerConfig} {now : Time} {b : CircuitBreaker}

theorem execute_cases (b : CircuitBreaker) (now : Time) :
    (b.state ≠ .OPEN ∧ b.execute now = (.ok (), b)) ∨
    (b.state = .OPEN ∧ (∃ t, b.nextAttemptTime = some t ∧ t ≤ now) ∧
      b.execute now = (.ok (), b.transitionToHalfOpen)) ∨
    (b.state = .OPEN ∧ ∃ e, b.execute now = (.error e, b)) := by
  by_cases hopen : b.state = .OPEN
  · by_cases hreset : b.shouldAttemptReset now = true
    · refine .inr (.inl ⟨hopen, ?_, ?_⟩)
      · simpa [shouldAttemptReset, Option.any_eq_true] using hreset
      · simp only [execute, hopen, hreset, if_true]
    · exact .inr (.inr ⟨hopen, _, by simp only [execute, hopen, hreset, if_true]; rfl⟩)
  · exact .inl ⟨hopen, if_neg hopen⟩

end CircuitBreaker

theorem World.step_cases {cfg : CircuitBreakerConfig} {w w' : World} {a : Action}
    (h : w.step cfg a = some w') : w.Stepped cfg a w' := by
  cases a with
  | execute =>
    simp only [step] at h
    obtain ⟨hne, he⟩ | ⟨hopen, ⟨t, ht, hle⟩, he⟩ | ⟨hopen, e, he⟩ := w.breaker.execute_cases w.now
    · rw [he] at h
      cases h
      exact .admitted hne
    · rw [he] at h
      cases h
      exact .probed hopen ht hle
    · rw [he] at h
      cases h
      exact .rejected hopen
  | settle op ok =>
    simp only [step] at h
    split at h
    · cases h
      exact .settled ‹_›
    · cases h
  | reset =>
    cases h
    exact .reset
  | tick t =>
    simp only [step] at h
    split at h
    · cases h
      exact .ticked ‹_›
    · cases h

/-- Closed, the breaker has seen too few failures to open; half open, too few successes to close;
open, it knows when to try again. -/
structure Sound (cfg : CircuitBreakerConfig) (b : CircuitBreaker) : Prop where
  closed : b.state = .CLOSED → b.failures < cfg.failureThreshold
  halfOpen : b.state = .HALF_OPEN → b.halfOpenAttempts < cfg.halfOpenMaxAttempts
  opened : b.state = .OPEN → b.nextAttemptTime.isSome = true

namespace Sound

variable {cfg : CircuitBreakerConfig} {now : Time} {b : CircuitBreaker}

theorem of_open (h : b.state = .OPEN) (ht : b.nextAttemptTime.isSome = true) : Sound cfg b where
  closed hc := absurd (h.symm.trans hc) (by decide)
  halfOpen hc := absurd (h.symm.trans hc) (by decide)
  opened _ := ht

theorem of_closed (h : b.state = .CLOSED) (hf : b.failures < cfg.failureThreshold) :
    Sound cfg b where
  closed _ := hf
  halfOpen hc := absurd (h.symm.trans hc) (by decide)
  opened hc := absurd (h.symm.trans hc) (by decide)

theorem of_halfOpen (h : b.state = .HALF_OPEN)
    (ha : b.halfOpenAttempts < cfg.halfOpenMaxAttempts) : Sound cfg b where
  closed hc := absurd (h.symm.trans hc) (by decide)
  halfOpen _ := ha
  opened hc := absurd (h.symm.trans hc) (by decide)

theorem onSuccess (hf : 1 ≤ cfg.failureThreshold) (h : Sound cfg b) :
    Sound cfg (b.onSuccess cfg now) := by
  cases hstate : b.state with
  | CLOSED =>
    refine of_closed ?_ ?_ <;> simp only [CircuitBreaker.onSuccess, hstate]
    exact hf
  | OPEN =>
    refine of_open ?_ ?_ <;> simp only [CircuitBreaker.onSuccess, hstate]
    exact h.opened hstate
  | HALF_OPEN =>
    simp only [CircuitBreaker.onSuccess, hstate]
    split
    · exact of_closed rfl hf
    · exact of_halfOpen rfl (Nat.lt_of_not_le ‹_›)

theorem onFailure (h : Sound cfg b) : Sound cfg (b.onFailure cfg now) := by
  cases hstate : b.state with
  | CLOSED =>
    simp only [CircuitBreaker.onFailure, hstate]
    split
    · exact of_open rfl rfl
    · exact of_closed rfl (Nat.lt_of_not_le ‹_›)
  | HALF_OPEN =>
    simp only [CircuitBreaker.onFailure, hstate]
    exact of_open rfl rfl
  | OPEN =>
    refine of_open ?_ ?_ <;> simp only [CircuitBreaker.onFailure, hstate]
    exact h.opened hstate

theorem settle (hf : 1 ≤ cfg.failureThreshold) (h : Sound cfg b) (ok : Bool) :
    Sound cfg (b.settle cfg now ok) := by
  cases ok with
  | false => exact h.onFailure
  | true => exact h.onSuccess hf

end Sound

/-! ## Failing fast -/

/-- When the breaker opened, since `reset` was last called. -/
def opens : List Event → List Time
  | [] => []
  | .reset :: _ => []
  | .opened t :: es => t :: opens es
  | .started .. :: es | .succeeded _ :: es | .failed _ :: es | .halfOpened :: es | .closed :: es =>
    opens es

/-- No operation starts before `earliest t` if the breaker opened at `t`, unless `reset` was called
in between. -/
def Waits (earliest : Time → Rat) (history : List Event) : Prop :=
  ∀ later op (t' : Time) between t earlier,
    history = later ++ .started op t' :: (between ++ .opened t :: earlier) → .reset ∉ between →
    earliest t ≤ t'

/-- No operation starts within `resetTimeout` after the breaker opened. -/
def FailsFast (cfg : CircuitBreakerConfig) (history : List Event) : Prop :=
  Waits (fun t => t + cfg.resetTimeout) history

/-- When an operation may start again, if the breaker opened at `t`. -/
def due (cfg : CircuitBreakerConfig) (t : Time) : Time := max t (dateOf (t + cfg.resetTimeout))

def Refuses (cfg : CircuitBreakerConfig) (w : World) (t : Time) : Prop :=
  (w.breaker.state = .OPEN ∧ ∃ next, w.breaker.nextAttemptTime = some next ∧
    dateOf (t + cfg.resetTimeout) ≤ next) ∨ dateOf (t + cfg.resetTimeout) ≤ w.now

variable {cfg : CircuitBreakerConfig} {w w' : World} {a : Action} {history : List Event}
  {earliest : Time → Rat}

theorem mem_opens {t : Time} {between earlier : List Event} (h : .reset ∉ between) :
    t ∈ opens (between ++ .opened t :: earlier) := by
  induction between with
  | nil => exact mem_cons_self
  | cons e between ih =>
    have hrest := ih fun hmem => h (mem_cons_of_mem e hmem)
    cases e with
    | reset => exact absurd mem_cons_self h
    | opened t' => exact mem_cons_of_mem t' hrest
    | started | succeeded | failed | halfOpened | closed => exact hrest

theorem Waits.cons {e : Event} (h : Waits earliest history)
    (he : ∀ op (t' : Time), e = .started op t' → ∀ t ∈ opens history, earliest t ≤ t') :
    Waits earliest (e :: history) := by
  intro later op t' between t earlier hsplit hreset
  cases later with
  | nil =>
    cases hsplit
    exact he op t' rfl t (mem_opens hreset)
  | cons e' later =>
    obtain ⟨-, hrest⟩ := cons.inj hsplit
    exact h later op t' between t earlier hrest hreset

theorem opens_transition (history : List Event) (t : Time) (before after : CircuitBreakerState) :
    opens (transition t before after ++ history) =
      if after = .OPEN ∧ before ≠ .OPEN then t :: opens history else opens history := by
  cases before <;> cases after <;> rfl

theorem Waits.transition (h : Waits earliest history) (t : Time)
    (before after : CircuitBreakerState) :
    Waits earliest (transition t before after ++ history) := by
  have hcons : ∀ e, (∀ op t', e ≠ .started op t') → Waits earliest (e :: history) :=
    fun e he => h.cons fun op t' hs => absurd hs (he op t')
  unfold Breaker.transition
  split
  · exact h
  · cases after <;> exact hcons _ (by simp)

namespace CircuitBreaker

theorem settle_cases (cfg : CircuitBreakerConfig) (now : Time) (b : CircuitBreaker) (ok : Bool) :
    (b.state = .OPEN ∧ (b.settle cfg now ok).state = .OPEN ∧
      (b.settle cfg now ok).nextAttemptTime = b.nextAttemptTime) ∨
    (b.state ≠ .OPEN ∧ (b.settle cfg now ok).state = .OPEN ∧
      (b.settle cfg now ok).nextAttemptTime = some (dateOf (now + cfg.resetTimeout))) ∨
    (b.state ≠ .OPEN ∧ (b.settle cfg now ok).state ≠ .OPEN) := by
  cases ok <;> cases hstate : b.state <;>
    simp only [settle, onSuccess, onFailure, hstate, Bool.false_eq_true, if_true, if_false]
  all_goals try split
  all_goals simp [transitionToOpen, transitionToClosed]

end CircuitBreaker

/-! ## Runs -/

structure Kept (cfg : CircuitBreakerConfig) (w : World) : Prop where
  sound : Sound cfg w.breaker
  past : ∀ t ∈ opens w.history, t ≤ w.now
  refuses : ∀ t ∈ opens w.history, Refuses cfg w t
  waits : Waits (fun t => due cfg t) w.history

namespace Kept

theorem init (hf : 1 ≤ cfg.failureThreshold) (now : Time) : Kept cfg (.init now) where
  sound := .of_closed rfl hf
  past _ ht := absurd ht (by simp [World.init, opens])
  refuses _ ht := absurd ht (by simp [World.init, opens])
  waits later op t' between t earlier h := absurd h (by simp [World.init])

theorem start (h : Kept cfg w) {b : CircuitBreaker} (hsound : Sound cfg b) (hb : b.state ≠ .OPEN)
    (hnow : ∀ t ∈ opens w.history, dateOf (t + cfg.resetTimeout) ≤ w.now) :
    Kept cfg (w.start b) := by
  have hopens : opens (w.start b).history = opens w.history := by
    refine (opens_transition w.history w.now w.breaker.state b.state).trans ?_
    exact if_neg fun hop => hb hop.1
  refine ⟨hsound, ?_, ?_, ?_⟩
  · rw [hopens]
    exact h.past
  · intro t ht
    rw [hopens] at ht
    exact .inr (hnow t ht)
  · refine (h.waits.transition w.now w.breaker.state b.state).cons ?_
    intro op t' he t ht
    obtain ⟨-, rfl⟩ := Event.started.inj he
    rw [opens_transition, if_neg fun hop => hb hop.1] at ht
    exact_mod_cast max_le (h.past t ht) (hnow t ht)

theorem settle (hf : 1 ≤ cfg.failureThreshold) (h : Kept cfg w) (op : Nat) (ok : Bool) :
    Kept cfg (w.settle cfg op ok) := by
  obtain ⟨e, he⟩ : ∃ e : Event, (if ok then .succeeded op else .failed op) = e := ⟨_, rfl⟩
  have hended : Waits (fun t => due cfg t) (e :: w.history) ∧ opens (e :: w.history) =
    opens w.history := by
    cases ok <;> subst he <;> exact ⟨h.waits.cons fun _ _ hs => absurd hs (by simp), rfl⟩
  have hopens := opens_transition (e :: w.history) w.now w.breaker.state
    (w.breaker.settle cfg w.now ok).state
  rw [hended.2] at hopens
  simp only [World.settle, he]
  refine ⟨h.sound.settle hf ok, ?_, ?_, hended.1.transition _ _ _⟩
  · intro t ht
    rw [hopens] at ht
    split at ht
    · obtain rfl | ht := mem_cons.mp ht
      · exact Int.le_refl _
      · exact h.past t ht
    · exact h.past t ht
  · intro t ht
    rw [hopens] at ht
    obtain ⟨hopen, hopen', hnext⟩ | ⟨hopen, hopen', hnext⟩ | ⟨hopen, hopen'⟩ :=
      w.breaker.settle_cases cfg w.now ok
    · rw [if_neg fun hop => hop.2 hopen] at ht
      obtain ⟨-, next, hn, hle⟩ | hle := h.refuses t ht
      · exact .inl ⟨hopen', next, hnext.trans hn, hle⟩
      · exact .inr hle
    · -- the breaker opens now, later than ever before
      rw [if_pos ⟨hopen', hopen⟩] at ht
      have hpast : (t : Rat) ≤ w.now := by
        obtain rfl | ht := mem_cons.mp ht
        · exact le_rfl
        · exact_mod_cast h.past t ht
      exact .inl ⟨hopen', _, hnext, dateOf_mono (by linarith)⟩
    · rw [if_neg fun hop => hopen' hop.1] at ht
      obtain ⟨hop, -⟩ | hle := h.refuses t ht
      · exact absurd hop hopen
      · exact .inr hle

theorem step (hf : 1 ≤ cfg.failureThreshold) (hm : 1 ≤ cfg.halfOpenMaxAttempts) (h : Kept cfg w)
    (hs : w.step cfg a = some w') : Kept cfg w' := by
  cases World.step_cases hs with
  | admitted hne =>
    refine h.start h.sound hne fun t ht => ?_
    obtain ⟨hop, -⟩ | hle := h.refuses t ht
    · exact absurd hop hne
    · exact hle
  | probed hopen hnext hle =>
    refine h.start (.of_halfOpen rfl hm) (by simp [CircuitBreaker.transitionToHalfOpen])
      fun t ht => ?_
    obtain ⟨-, next, hn, hlate⟩ | hlate := h.refuses t ht
    · obtain rfl := Option.some.inj (hn.symm.trans hnext)
      exact Int.le_trans hlate hle
    · exact hlate
  | rejected => exact h
  | settled => exact h.settle hf _ _
  | reset =>
    refine ⟨.of_closed rfl hf, ?_, ?_, h.waits.cons fun _ _ he => absurd he (by simp)⟩ <;>
      exact fun t ht => absurd ht (by simp [opens])
  | ticked hle =>
    refine ⟨h.sound, fun t ht => Int.le_trans (h.past t ht) hle, fun t ht => ?_, h.waits⟩
    obtain hop | hlate := h.refuses t ht
    · exact .inl hop
    · exact .inr (Int.le_trans hlate hle)

end Kept

theorem CircuitBreaker.execute_error {b b' : CircuitBreaker} {now : Time} {e : CircuitBreakerError}
    (h : b.execute now = (.error e, b')) : b' = b := by
  obtain ⟨-, he⟩ | ⟨-, -, he⟩ | ⟨-, e', he⟩ := b.execute_cases now
  · exact absurd (he.symm.trans h) (by simp)
  · exact absurd (he.symm.trans h) (by simp)
  · exact (Prod.mk.inj (h.symm.trans he)).2

theorem kept_of_reaches (hf : 1 ≤ cfg.failureThreshold) (hm : 1 ≤ cfg.halfOpenMaxAttempts)
    {t₀ : Time} (h : Reaches (World.step cfg) (fun _ _ => True) (.init t₀) w) : Kept cfg w :=
  h.invariant (Kept cfg) (.init hf t₀) fun hk _ hs => hk.step hf hm hs

end Bridge.Breaker
