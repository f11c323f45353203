import Mathlib.Algebra.GroupWithZero.Nat
import Bridge.Breaker.Circuit
import Bridge.Lib.Thrown

/-!
# The retries of the OpenAI adapter

`execute` answers a rate limit by waiting and calling itself, and counts the retries in the adapter.
The call to itself is returned, not awaited: it runs up to its own first `await`, and then the
`finally` block of the call that made it sets the counter back, long before the API has answered.
Whoever reads the counter after that reads `0`. So each wait is the first one, no result knows of a
retry, and what ends the retries is the circuit breaker.
-/

namespace Bridge.Adapters.OpenAI

open Lib Utf16 Breaker List

/-- `toISOString`, of which only the characters matter. -/
structure Iso where
  text : Time → Units
  units : ∀ t, ∀ u ∈ text t, u ∈ ofString "0123456789+-:.TZ"

structure Texts where
  lowerCase : LowerCase
  iso : Iso

structure Completion where
  content : Option Units
  finishReason : Option Units := none
  totalTokens : Option Nat := none
  promptTokens : Option Nat := none
  completionTokens : Option Nat := none
  deriving DecidableEq

structure AdapterResult where
  output : Units
  tokensUsed : Nat
  model : Units
  retryCount : Nat
  finishReason : Option Units
  promptTokens : Option Nat
  completionTokens : Option Nat
  deriving DecidableEq

structure OpenAIAdapter where
  model : Units
  circuitBreaker : CircuitBreaker := {}
  retryCount : Nat := 0

def breakerConfig : CircuitBreakerConfig := .resolve (some 5) (some 60000) none

inductive Await
  | create
  /-- The promise of the breaker, which has been rejected. -/
  | refusal (error : Thrown)
  | delay (ms : Nat)
  deriving DecidableEq

inductive Status
  | awaits (a : Await)
  | returned (result : AdapterResult)
  | threw (error : Thrown)
  deriving DecidableEq

structure Run where
  adapter : OpenAIAdapter
  status : Status
  apiCalls : Nat
  waits : List Nat

structure Input where
  now : Time
  outcome : Except Thrown Completion

section Execute

variable (texts : Texts)

def isRateLimitError : Thrown → Except Thrown Bool
  | .nullish => .ok false
  | .value message status =>
    if status = some 429 then .ok true
    else message.mentions texts.lowerCase (ofString "rate limit")

def refusalText (error : CircuitBreakerError) : Units :=
  ofString "Circuit breaker is OPEN. Next attempt at " ++
    match error.nextAttempt with
    | some t => texts.iso.text t
    | none => ofString "undefined"

def resultOf (a : OpenAIAdapter) (completion : Completion) : AdapterResult where
  output := completion.content.getD []
  tokensUsed := completion.totalTokens.getD 0
  model := a.model
  retryCount := a.retryCount
  finishReason := completion.finishReason
  promptTokens := completion.promptTokens
  completionTokens := completion.completionTokens

/-- `execute`, up to its first `await`. -/
def launch (now : Time) (r : Run) : Run :=
  match r.adapter.circuitBreaker.execute now with
  | (.ok (), b) =>
    { r with
      adapter := { r.adapter with circuitBreaker := b }
      status := .awaits .create
      apiCalls := r.apiCalls + 1 }
  | (.error e, b) =>
    { r with
      adapter := { r.adapter with circuitBreaker := b }
      status := .awaits (.refusal (.value (.text (refusalText texts e)) none)) }

/-- The `finally` block. -/
def lastly (r : Run) : Run := { r with adapter := { r.adapter with retryCount := 0 } }

/-- The `catch` block. -/
def recover (error : Thrown) (r : Run) : Run :=
  match isRateLimitError texts error with
  | .error e => lastly { r with status := .threw e }
  | .ok limited =>
    if limited && decide (r.adapter.retryCount < 3) then
      let retryCount := r.adapter.retryCount + 1
      let ms := 2 ^ retryCount * 1000
      { r with
        adapter := { r.adapter with retryCount := retryCount }
        status := .awaits (.delay ms)
        waits := r.waits ++ [ms] }
    else lastly { r with status := .threw error }

def settled (now : Time) (ok : Bool) (r : Run) : Run :=
  { r with
    adapter := { r.adapter with circuitBreaker :=
      r.adapter.circuitBreaker.settle breakerConfig now ok } }

def step (r : Run) (inp : Input) : Option Run :=
  match r.status with
  | .awaits .create =>
    match inp.outcome with
    | .ok completion =>
      some (lastly { settled inp.now true r with
        status := .returned (resultOf r.adapter completion) })
    | .error e => some (recover texts e (settled inp.now false r))
  | .awaits (.refusal e) => some (recover texts e r)
  -- `return this.execute(task)`: the new call has started when the `finally` block runs
  | .awaits (.delay _) => some (lastly (launch texts inp.now r))
  | .returned _ => none
  | .threw _ => none

/-- A call of `execute`. -/
def start (now : Time) (a : OpenAIAdapter) : Run := launch texts now ⟨a, .threw .nullish, 0, []⟩

/-- The call after `n` things it waited for have settled; one that has ended stays as it is. -/
def after (r : Run) (inputs : Nat → Input) : Nat → Run
  | 0 => r
  | n + 1 => (step texts (after r inputs n) (inputs n)).getD (after r inputs n)

end Execute

variable {texts : Texts} {r r' : Run} {inp : Input} {inputs : Nat → Input} {n : Nat}

theorem after_succ : after texts r inputs (n + 1) =
    (step texts (after texts r inputs n) (inputs n)).getD (after texts r inputs n) := rfl

/-- The unit is ASCII and, in lower case, no `l`. -/
def isQuiet (u : UInt16) : Bool := decide (u.toNat < 0x80) && lowerUnit u != 0x6C

theorem isQuiet_refusalText (texts : Texts) (error : CircuitBreakerError) :
    (refusalText texts error).all isQuiet = true := by
  have hdate : ∀ t, (texts.iso.text t).all isQuiet = true := by
    intro t
    have hunits : (ofString "0123456789+-:.TZ").all isQuiet = true := by decide
    rw [all_eq_true] at hunits ⊢
    intro u hu
    exact hunits u (texts.iso.units t u hu)
  have hundefined : (ofString "undefined").all isQuiet = true := by decide
  unfold refusalText
  rw [all_append, Bool.and_eq_true]
  refine ⟨by decide, ?_⟩
  cases error.nextAttempt with
  | none => exact hundefined
  | some t => exact hdate t

theorem isRateLimitError_refusal (error : CircuitBreakerError) :
    isRateLimitError texts (.value (.text (refusalText texts error)) none) = .ok false := by
  have hquiet := isQuiet_refusalText texts error
  simp only [isQuiet, all_eq_true, Bool.and_eq_true, decide_eq_true_eq, bne_iff_ne] at hquiet
  have hlower := texts.lowerCase.ascii _ fun u hu => (hquiet u hu).1
  have hno : (0x6C : UInt16) ∉ texts.lowerCase.lower (refusalText texts error) := by
    rw [hlower, mem_map]
    intro hx
    obtain ⟨u, hu, heq⟩ := hx
    exact (hquiet u hu).2 heq
  have hl : (0x6C : UInt16) ∈ ofString "rate limit" := by decide
  show Except.ok (includes _ _) = _
  rw [includes_eq_false hl hno]

/-! ## One step -/

variable {e : Thrown}

theorem recover_limited (h : isRateLimitError texts e = .ok true)
    (hcount : r.adapter.retryCount = 0) : recover texts e r =
      { r with
        adapter := { r.adapter with retryCount := 1 }
        status := .awaits (.delay 2000)
        waits := r.waits ++ [2000] } := by
  simp only [recover, h, hcount]
  rfl

theorem recover_other (h : isRateLimitError texts e ≠ .ok true) :
    ∃ e', recover texts e r = lastly { r with status := .threw e' } := by
  unfold recover
  cases hlimit : isRateLimitError texts e with
  | error e' => exact ⟨e', rfl⟩
  | ok limited =>
    cases limited with
    | true => exact absurd hlimit h
    | false => exact ⟨e, rfl⟩

def Limited (texts : Texts) (outcome : Except Thrown Completion) : Prop :=
  ∃ e, outcome = .error e ∧ isRateLimitError texts e = .ok true

def Fatal (texts : Texts) (outcome : Except Thrown Completion) : Prop :=
  ∃ e, outcome = .error e ∧ isRateLimitError texts e ≠ .ok true

section Asking

variable (hr : r.status = .awaits .create)
include hr

theorem step_create_ok {completion : Completion} (hout : inp.outcome = .ok completion) : step
    texts r inp = some (lastly { settled inp.now true r with status := .returned (resultOf r.adapter
        completion) }) := by
  simp [step, hr, hout]

theorem step_create_limited (hcount : r.adapter.retryCount = 0)
    (hout : Limited texts inp.outcome) : step texts r inp =
      some ⟨⟨r.adapter.model, r.adapter.circuitBreaker.onFailure breakerConfig inp.now, 1⟩,
        .awaits (.delay 2000), r.apiCalls, r.waits ++ [2000]⟩ := by
  obtain ⟨e, hout, hlimit⟩ := hout
  simp only [step, hr, hout, recover_limited (r := settled inp.now false r) hlimit hcount]
  rfl

theorem step_create_fatal (hout : Fatal texts inp.outcome) :
    ∃ e, step texts r inp = some (lastly { settled inp.now false r with status := .threw e }) := by
  obtain ⟨e, hout, hlimit⟩ := hout
  obtain ⟨e', he'⟩ := recover_other (r := settled inp.now false r) hlimit
  refine ⟨e', ?_⟩
  simp [step, hr, hout, he']

end Asking

theorem step_refusal (inp : Input) (hr : r.status = .awaits (.refusal e))
    (he : isRateLimitError texts e = .ok false) :
    ∃ e', step texts r inp = some (lastly { r with status := .threw e' }) := by
  have hnot : isRateLimitError texts e ≠ .ok true := by
    rw [he]
    simp
  obtain ⟨e', he'⟩ := recover_other (r := r) hnot
  refine ⟨e', ?_⟩
  simp [step, hr, he']

theorem outcome_cases (texts : Texts) (outcome : Except Thrown Completion) :
    (∃ completion, outcome = .ok completion) ∨ Limited texts outcome ∨ Fatal texts outcome := by
  cases outcome with
  | ok completion => exact .inl ⟨completion, rfl⟩
  | error e =>
    by_cases h : isRateLimitError texts e = .ok true
    · exact .inr (.inl ⟨e, rfl, h⟩)
    · exact .inr (.inr ⟨e, rfl, h⟩)

/-! ## Whole calls -/

theorem after_of_ended (h : ∀ inp, step texts (after texts r inputs n) inp = none) {m : Nat}
    (hm : n ≤ m) : after texts r inputs m = after texts r inputs n := by
  induction m, hm using Nat.le_induction with
  | base => rfl
  | succ m _ ih =>
    rw [after_succ, ih, h, Option.getD_none]

/-- Three retries at most, after two, four and eight seconds, and a result that knows of them. -/
structure Backoff (r : Run) : Prop where
  calls : r.apiCalls ≤ 4
  waits : r.waits <+: [2000, 4000, 8000]
  retryCount : ∀ result, r.status = .returned result → result.retryCount = r.waits.length

theorem Backoff.of_not_returned (hcalls : r.apiCalls ≤ 4) (hwaits : r.waits <+: [2000, 4000, 8000])
    (h : ∀ result, r.status ≠ .returned result) : Backoff r :=
  ⟨hcalls, hwaits, fun result hr => absurd hr (h result)⟩

variable {now : Time} {a : OpenAIAdapter}

theorem start_closed (hclosed : a.circuitBreaker.state = .CLOSED) :
    start texts now a = ⟨a, .awaits .create, 1, []⟩ := by
  have hexec : a.circuitBreaker.execute now = (.ok (), a.circuitBreaker) := by
    simp [CircuitBreaker.execute, hclosed]
  simp [start, launch, hexec]

def Refused (a : OpenAIAdapter) (inputs : Nat → Input) : Prop :=
  5 ≤ a.circuitBreaker.failures + 1 ∧ (inputs 1).now < (inputs 0).now + 60000

theorem execute_after_failure (hclosed : a.circuitBreaker.state = .CLOSED) :
    Refused a inputs ↔ ∃ e b,
      (a.circuitBreaker.onFailure breakerConfig (inputs 0).now).execute (inputs 1).now =
        (.error e, b) := by
  have hthreshold : breakerConfig.failureThreshold = 5 := rfl
  have hdate : dateOf ((inputs 0).now + breakerConfig.resetTimeout) = (inputs 0).now + 60000 := by
    rw [← dateOf_intCast ((inputs 0).now + 60000), Int.cast_add]
    rfl
  by_cases hfive : 5 ≤ a.circuitBreaker.failures + 1
  · by_cases hsoon : (inputs 1).now < (inputs 0).now + 60000
    · have hwait : ¬ (inputs 0).now + 60000 ≤ (inputs 1).now := Int.not_le.mpr hsoon
      simp [Refused, CircuitBreaker.onFailure, CircuitBreaker.execute,
        CircuitBreaker.transitionToOpen,
        CircuitBreaker.shouldAttemptReset, hclosed, hthreshold, hdate, hfive, hsoon, hwait]
    · have hwait : (inputs 0).now + 60000 ≤ (inputs 1).now := Int.not_lt.mp hsoon
      simp [Refused, CircuitBreaker.onFailure, CircuitBreaker.execute,
        CircuitBreaker.transitionToOpen,
        CircuitBreaker.shouldAttemptReset, hclosed, hthreshold, hdate, hfive, hsoon, hwait]
  · simp [Refused, CircuitBreaker.onFailure, CircuitBreaker.execute, hclosed, hthreshold, hfive]

section Retry

variable (hidle : a.retryCount = 0) (hclosed : a.circuitBreaker.state = .CLOSED)
  (hlimited : Limited texts (inputs 0).outcome)
include hidle hclosed hlimited

theorem after_one : after texts (start texts now a) inputs 1 =
    ⟨⟨a.model, a.circuitBreaker.onFailure breakerConfig (inputs 0).now, 1⟩,
      .awaits (.delay 2000), 1, [2000]⟩ := by
  rw [after_succ, after, start_closed hclosed, step_create_limited rfl hidle hlimited]
  rfl

theorem after_two_refused (now : Time) (h : Refused a inputs) :
    ∃ b e, isRateLimitError texts e = .ok false ∧ after texts (start texts now a) inputs 2 =
      ⟨⟨a.model, b, 0⟩, .awaits (.refusal e), 1, [2000]⟩ := by
  obtain ⟨e, b, hexec⟩ := (execute_after_failure hclosed).mp h
  refine ⟨b, _, isRateLimitError_refusal e, ?_⟩
  rw [after_succ, after_one hidle hclosed hlimited]
  simp only [step, launch, hexec]
  rfl

theorem after_two_called (now : Time) (h : ¬ Refused a inputs) :
    ∃ b, after texts (start texts now a) inputs 2 =
    ⟨⟨a.model, b, 0⟩, .awaits .create, 2, [2000]⟩ := by
  rw [execute_after_failure hclosed] at h
  cases hexec : (a.circuitBreaker.onFailure breakerConfig (inputs 0).now).execute
    (inputs 1).now with
  | mk answer b =>
    cases answer with
    | error e => exact absurd ⟨e, b, hexec⟩ h
    | ok u =>
      refine ⟨b, ?_⟩
      rw [after_succ, after_one hidle hclosed hlimited]
      simp only [step, launch, hexec]
      rfl

end Retry

theorem backoff_of_not_limited (hidle : a.retryCount = 0)
    (hclosed : a.circuitBreaker.state = .CLOSED)
    (h : ¬ Limited texts (inputs 0).outcome) (n : Nat) :
    Backoff (after texts (start texts now a) inputs n) := by
  have hzero : Backoff (after texts (start texts now a) inputs 0) := by
    rw [after, start_closed hclosed]
    exact .of_not_returned (by simp) (by simp) (by simp)
  have hone : Backoff (after texts (start texts now a) inputs 1) ∧
      ∀ inp, step texts (after texts (start texts now a) inputs 1) inp = none := by
    rw [after_succ, after, start_closed hclosed]
    obtain ⟨completion, hout⟩ | hlimited | hfatal := outcome_cases texts (inputs 0).outcome
    · rw [step_create_ok rfl hout]
      refine ⟨⟨by simp [lastly, settled], by simp [lastly, settled], fun result hr => ?_⟩,
        fun inp => rfl⟩
      cases hr
      exact hidle
    · exact absurd hlimited h
    · obtain ⟨e, he⟩ := step_create_fatal (r := ⟨a, .awaits .create, 1, []⟩) rfl hfatal
      rw [he]
      exact ⟨.of_not_returned (by simp [lastly, settled]) (by simp [lastly, settled])
        (by simp [lastly]), fun inp => rfl⟩
  cases n with
  | zero => exact hzero
  | succ n =>
    rw [after_of_ended hone.2 (Nat.succ_le_succ (Nat.zero_le n))]
    exact hone.1

theorem backoff_of_ended (hidle : a.retryCount = 0)
    (hclosed : a.circuitBreaker.state = .CLOSED) (hlimited : Limited texts (inputs 0).outcome)
    {w : Await} {b : CircuitBreaker} {calls : Nat} (hcalls : calls ≤ 4)
    (htwo : after texts (start texts now a) inputs 2 = ⟨⟨a.model, b, 0⟩, .awaits w, calls, [2000]⟩)
    {a' : OpenAIAdapter}
    (hthree : step texts (after texts (start texts now a) inputs 2) (inputs 2) =
      some ⟨a', .threw e, calls, [2000]⟩) (n : Nat) :
    Backoff (after texts (start texts now a) inputs n) := by
  have hend : after texts (start texts now a) inputs 3 = ⟨a', .threw e, calls, [2000]⟩ := by
    rw [after_succ, hthree]
    rfl
  obtain _ | _ | _ | n := n
  · rw [after, start_closed hclosed]
    exact .of_not_returned (by simp) (by simp) (by simp)
  · rw [after_one hidle hclosed hlimited]
    exact .of_not_returned (by simp) (by simp) (by simp)
  · rw [htwo]
    exact .of_not_returned hcalls (by simp) (by simp)
  · have hstay : ∀ inp, step texts (after texts (start texts now a) inputs 3) inp = none := by
      intro inp
      rw [hend]
      rfl
    rw [after_of_ended hstay (Nat.le_add_left 3 n), hend]
    exact .of_not_returned hcalls (by simp) (by simp)

/-- The retries back off as they should in three cases only: there is none; the breaker refuses the
first; or the first meets an error that is not retried. -/
theorem backoff_iff (texts : Texts) (now : Time) (a : OpenAIAdapter) (inputs : Nat → Input)
    (hidle : a.retryCount = 0) (hclosed : a.circuitBreaker.state = .CLOSED) :
    (∀ n, Backoff (after texts (start texts now a) inputs n)) ↔
      ¬ Limited texts (inputs 0).outcome ∨ Refused a inputs ∨ Fatal texts (inputs 2).outcome := by
  by_cases hlimited : Limited texts (inputs 0).outcome
  · by_cases hrefused : Refused a inputs
    · obtain ⟨b, e, he, htwo⟩ := after_two_refused hidle hclosed hlimited now hrefused
      obtain ⟨e', hthree⟩ := step_refusal (r := after texts (start texts now a) inputs 2)
        (inputs 2) (by rw [htwo]) he
      rw [htwo] at hthree
      simp only [hrefused, true_or, or_true, iff_true]
      exact backoff_of_ended hidle hclosed hlimited (by simp) htwo (by rw [htwo, hthree]; rfl)
    · obtain ⟨b, htwo⟩ := after_two_called hidle hclosed hlimited now hrefused
      simp only [hlimited, hrefused, not_true, false_or]
      constructor
      · intro h
        have hthree := h 3
        rw [after_succ, htwo] at hthree
        obtain ⟨completion, hout⟩ | hagain | hfatal := outcome_cases texts (inputs 2).outcome
        -- the result of the retry says that there was none
        · rw [step_create_ok rfl hout] at hthree
          cases hthree.retryCount _ rfl
        -- the second wait is as long as the first
        · rw [step_create_limited rfl rfl hagain] at hthree
          have hwaits : [2000, 2000] <+: [2000, 4000, 8000] := hthree.waits
          simp at hwaits
        · exact hfatal
      · intro hfatal
        obtain ⟨e, hthree⟩ := step_create_fatal (r := ⟨⟨a.model, b, 0⟩, .awaits .create, 2, [2000]⟩)
          rfl hfatal
        exact backoff_of_ended hidle hclosed hlimited (by simp) htwo (by rw [htwo, hthree]; rfl)
  · simp only [hlimited, not_false_eq_true, true_or, iff_true]
    exact backoff_of_not_limited hidle hclosed hlimited

theorem epoch_units : (ofString "1970-01-01T00:00:00.000Z").all
    (fun u => (ofString "0123456789+-:.TZ").elem u) = true := by
  decide

def Texts.plain : Texts where
  lowerCase := .plain
  iso := ⟨fun _ => ofString "1970-01-01T00:00:00.000Z",
    fun _ u hu => elem_iff.mp (all_eq_true.mp epoch_units u hu)⟩

def gpt4 : OpenAIAdapter where
  model := ofString "gpt-4-turbo-preview"

def tooManyRequests : Thrown := .value (.text (ofString "Rate limit reached")) (some 429)

def busy (n : Nat) : Input := ⟨2000 * n, .error tooManyRequests⟩

def busyOnce (n : Nat) : Input :=
  ⟨2000 * n, if n = 0 then .error tooManyRequests else .ok { content := some (ofString "Hi") }⟩

def expired (n : Nat) : Input :=
  ⟨2000 * n, .error (if n = 0 then tooManyRequests else .value .missing (some 401))⟩

theorem backoff_iff_expired : Limited .plain (expired 0).outcome ∧
    ∀ n, Backoff (after .plain (start .plain 0 gpt4) expired n) :=
  ⟨⟨_, rfl, by decide +kernel⟩, (backoff_iff .plain 0 gpt4 expired rfl rfl).mpr
    (.inr (.inr ⟨_, rfl, by decide +kernel⟩))⟩

theorem retries_forgotten :
    (∃ result, (after .plain (start .plain 0 gpt4) busyOnce 3).status = .returned result ∧
      result.retryCount = 0 ∧ (after .plain (start .plain 0 gpt4) busyOnce 3).waits = [2000]) ∧
    (after .plain (start .plain 0 gpt4) busy 12).apiCalls = 5 ∧
    (after .plain (start .plain 0 gpt4) busy 12).waits = [2000, 2000, 2000, 2000, 2000] := by
  refine ⟨⟨_, rfl, rfl, rfl⟩, ?_, ?_⟩
  · decide +kernel
  · decide +kernel

end Bridge.Adapters.OpenAI
