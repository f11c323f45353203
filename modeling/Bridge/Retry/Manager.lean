import Bridge.Breaker.Retry
import Bridge.Lib.Texts
import Mathlib.Data.Rat.Floor

/-!
# The retry manager

`executeWithRetry` calls a function up to `maxAttempts` times. Between two attempts it sleeps, and
with a `circuitBreakerKey` it tells the breaker of that key how each attempt ended. The breakers
belong to the manager and are shared: while a call waits, other calls and resets of the same manager
may do what they like with them.
-/

namespace Bridge.Retry

open Lib Lib.Utf16 Breaker List

abbrev Text := Utf16.Units

abbrev Key := Text

/-- Something thrown: an `Error`, or anything else that may have these properties. A `code` that is
not a string is one that no list of codes has in it. -/
structure Thrown where
  code : Option Text := none
  message : Option Text := none
  status : Option Int := none
  deriving DecidableEq

/-- An element of `retryableErrors`. A regular expression with the `g` or `y` flag starts where it
stopped the last time, so what it answers may depend on the attempt. -/
inductive Pattern
  | text (pattern : Text)
  | regExp (test : Nat → Text → Bool)

structure RetryOptions where
  maxAttempts : Option Nat := none
  initialDelay : Option Rat := none
  maxDelay : Option Rat := none
  backoffMultiplier : Option Rat := none
  jitter : Option Bool := none
  retryableErrors : Option (List Pattern) := none
  circuitBreakerKey : Option Key := none
  timeout : Option Rat := none

structure Config where
  maxAttempts : Nat
  initialDelay : Rat
  maxDelay : Rat
  backoffMultiplier : Rat
  jitter : Bool
  retryableErrors : List Pattern
  circuitBreakerKey : Option Key
  timeout : Rat

/-- The settings as `executeWithRetry` resolves them. -/
def RetryOptions.resolve (options : RetryOptions) : Config where
  maxAttempts := options.maxAttempts.getD 3
  initialDelay := options.initialDelay.getD 1000
  maxDelay := options.maxDelay.getD 30000
  backoffMultiplier := options.backoffMultiplier.getD 2
  jitter := options.jitter.getD true
  retryableErrors := options.retryableErrors.getD []
  circuitBreakerKey := options.circuitBreakerKey
  timeout := options.timeout.getD 60000

def Config.key (config : Config) : Option Key := config.circuitBreakerKey.filter fun key =>
    key != []

def alwaysRetryable : List Text :=
  ["ECONNREFUSED", "ECONNRESET", "ETIMEDOUT", "ENOTFOUND", "ENETUNREACH", "EAI_AGAIN",
    "ECONNABORTED", "EPIPE"].map ofString

def Pattern.admits (attempt : Nat) (errorCode : Option Text) (errorMessage : Text) : Pattern → Bool
  | .text pattern => decide (errorCode = some pattern) || includes errorMessage pattern
  | .regExp test => test attempt errorMessage

def isRetryableError (attempt : Nat) (error : Thrown) (retryableErrors : List Pattern) : Bool :=
  let errorMessage := error.message.getD []
  if error.code.any fun code => alwaysRetryable.contains code then true
  else if includes errorMessage (ofString "rate limit") || includes errorMessage
    (ofString "429") then
    true
  else if retryableErrors.any fun pattern =>
    pattern.admits attempt error.code errorMessage then true
  else
    match error.status with
    | none => false
    -- `0` is no status
    | some status =>
      decide (status ≠ 0) && (decide (500 ≤ status) || decide (status = 408) || decide
        (status = 429))

/-- `Math.round`. -/
def round (x : Rat) : Rat := ⌊x + 1 / 2⌋

def calculateNextDelay (random currentDelay : Rat) (config : Config) : Rat :=
  let nextDelay := currentDelay * config.backoffMultiplier
  let nextDelay := min nextDelay config.maxDelay
  let nextDelay :=
    if config.jitter then
      let jitterAmount := nextDelay * (1 / 5)
      let jitter := random * jitterAmount - jitterAmount / 2
      nextDelay + jitter
    else nextDelay
  round nextDelay

/-! ## The manager and its breakers -/

structure Manager where
  circuitBreakers : Key → Option Retry.CircuitBreaker := fun _ => none

namespace Manager

section Manager

variable (m : Manager)

def setBreaker (key : Key) (b : Retry.CircuitBreaker) : Manager :=
  ⟨fun k => if k = key then some b else m.circuitBreakers k⟩

def getOrCreateCircuitBreaker (key : Key) : Retry.CircuitBreaker :=
  (m.circuitBreakers key).getD {}

/-- `getOrCreateCircuitBreaker(key).canExecute()`. -/
def canExecute (key : Key) (now : Time) : Bool × Manager :=
  let (ok, b) := (m.getOrCreateCircuitBreaker key).canExecute Retry.managed now
  (ok, m.setBreaker key b)

def has (key : Key) : Bool := (m.circuitBreakers key).isSome

/-- `circuitBreakers.get(key)?.recordSuccess()`, or `recordFailure`. -/
def record (key : Key) (now : Time) (ok : Bool) : Manager :=
  match m.circuitBreakers key with
  | none => m
  | some b =>
    m.setBreaker key (if ok then b.recordSuccess Retry.managed now else b.recordFailure
      Retry.managed now)

def resetCircuitBreaker (key : Key) : Manager :=
  match m.circuitBreakers key with
  | none => m
  | some _ => m.setBreaker key .reset

def resetAllCircuitBreakers : Manager :=
  ⟨fun key => (m.circuitBreakers key).map fun _ => .reset⟩

end Manager

end Manager

inductive ManagerCall
  | canExecute (key : Key) (now : Time)
  | record (key : Key) (now : Time) (ok : Bool)
  | resetCircuitBreaker (key : Key)
  | resetAllCircuitBreakers

def Manager.apply (m : Manager) : ManagerCall → Manager
  | .canExecute key now => (m.canExecute key now).2
  | .record key now ok => m.record key now ok
  | .resetCircuitBreaker key => m.resetCircuitBreaker key
  | .resetAllCircuitBreakers => m.resetAllCircuitBreakers

/-! ## A call -/

inductive Outcome (α : Type)
  | value (v : α)
  | error (e : Thrown)
  | timeout

structure Environment (α : Type) where
  outcome : Nat → Outcome α
  /-- The value of `Math.random()` after the attempt. -/
  random : Nat → Rat
  random_nonneg : ∀ attempt, 0 ≤ random attempt
  random_lt_one : ∀ attempt, random attempt < 1
  /-- When the call is made, and when each attempt ends. -/
  now : Nat → Time
  /-- What others do with the manager while the attempt runs, and in the sleep before it. -/
  others : Nat → List ManagerCall

inductive RetryEvent
  | success (attempt totalAttempts : Nat)
  | exhausted (attempts : Nat) (lastError : Thrown)
  | attempt (attempt : Nat) (error : Thrown) (nextDelay : Rat)

inductive Effect
  | invoked (attempt : Nat)
  | recorded (key : Key) (ok : Bool)
  /-- The sleep after the attempt. -/
  | slept (attempt : Nat) (ms : Rat)
  | emitted (event : RetryEvent)

inductive Failure
  /-- An `Error` with this message. -/
  | circuitOpen (message : Text)
  | rethrown (error : Thrown)
  | exhausted (message : Text) (lastError : Thrown)
  /-- `throw lastError`, after no attempt at all. -/
  | undefined
  deriving DecidableEq

structure Run where
  manager : Manager
  log : List Effect := []

namespace Run

def invoke (run : Run) (attempt : Nat) (others : List ManagerCall) : Run :=
  ⟨others.foldl Manager.apply run.manager, run.log ++ [.invoked attempt]⟩

def record (run : Run) (key : Option Key) (now : Time) (ok : Bool) : Run :=
  match key with
  | none => run
  | some key =>
    ⟨run.manager.record key now ok,
      run.log ++ if run.manager.has key then [.recorded key ok] else []⟩

def sleep (run : Run) (attempt : Nat) (ms : Rat) : Run :=
  { run with log := run.log ++ [.slept attempt ms] }

def emit (run : Run) (event : RetryEvent) : Run := { run with log := run.log ++ [.emitted event] }

end Run

section Call

variable {α : Type} (print : Rat → Text) (config : Config) (env : Environment α)

def withTimeout (timeout : Rat) : Outcome α → Except Thrown α
  | .value v => .ok v
  | .error e => .error e
  | .timeout =>
    .error { message := some (ofString "Operation timed out after " ++ print timeout ++
      ofString "ms") }

def exhaustedMessage (lastError : Thrown) : Text :=
  ofString "Failed after " ++ print config.maxAttempts ++ ofString " attempts: " ++
    lastError.message.getD (ofString "undefined")

/-- The loop, with so many attempts left; `print` is how a number is written in a message. -/
def attempts : Nat → Nat → Rat → Option Thrown → Run → Except Failure α × Run
  | 0, _, _, lastError, run => (.error (lastError.elim .undefined .rethrown), run)
  | remaining + 1, attempt, delay, _, run =>
    let run := run.invoke attempt (env.others attempt)
    match withTimeout print config.timeout (env.outcome attempt) with
    | .ok result =>
      let run := run.record config.key (env.now attempt) true
      (.ok result, run.emit (.success attempt config.maxAttempts))
    | .error error =>
      let run := run.record config.key (env.now attempt) false
      if !isRetryableError attempt error config.retryableErrors then (.error (.rethrown error), run)
      else if attempt = config.maxAttempts then
        (.error (.exhausted (exhaustedMessage print config error) error),
          run.emit (.exhausted config.maxAttempts error))
      else
        let run := if 1 < attempt then run.sleep attempt delay else run
        let delay := calculateNextDelay (env.random attempt) delay config
        attempts remaining (attempt + 1) delay (some error)
          (run.emit (.attempt attempt error delay))

def admission (m : Manager) : Bool × Manager :=
  match config.key with
  | none => (true, m)
  | some key => m.canExecute key (env.now 0)

end Call

def executeWithRetry {α : Type} (print : Rat → Text) (options : RetryOptions) (env : Environment α)
    (m : Manager) : Except Failure α × Run :=
  let config := options.resolve
  match admission config env m with
  | (false, m) =>
    (.error (.circuitOpen (ofString "Circuit breaker is open for: " ++ config.key.getD [])),
      ⟨m, []⟩)
  | (true, m) =>
    attempts print config env config.maxAttempts 1 config.initialDelay none ⟨m, []⟩

/-! ## What a call does -/

section Spec

variable {α : Type} (print : Rat → Text) (config : Config) (env : Environment α)

/-- The attempt ends the call: with a value, or with an error that is not retried. -/
def decisive (attempt : Nat) : Bool :=
  match withTimeout print config.timeout (env.outcome attempt) with
  | .ok _ => true
  | .error error => !isRetryableError attempt error config.retryableErrors

/-- The last attempt: the first decisive one, or `maxAttempts`. -/
def lastAttempt : Nat :=
  ((range' 1 config.maxAttempts).find? (decisive print config env)).getD config.maxAttempts

def answer (attempt : Nat) : Except Failure α :=
  match withTimeout print config.timeout (env.outcome attempt) with
  | .ok result => .ok result
  | .error error =>
    if isRetryableError attempt error config.retryableErrors then
      .error (.exhausted (exhaustedMessage print config error) error)
    else .error (.rethrown error)

def recordOf (attempt : Nat) : List Effect :=
  config.key.toList.map fun key =>
    .recorded key (withTimeout print config.timeout (env.outcome attempt)).isOk

/-- The delay in the loop's variable when the attempt begins. -/
def delayAt : Nat → Rat
  | 0 | 1 => config.initialDelay
  | attempt + 2 => calculateNextDelay (env.random (attempt + 1)) (delayAt (attempt + 1)) config

def retried (attempt : Nat) : List Effect :=
  match withTimeout print config.timeout (env.outcome attempt) with
  | .ok _ => []
  | .error error =>
    (if 1 < attempt then [.slept attempt (delayAt config env attempt)] else []) ++
      [.emitted (.attempt attempt error (delayAt config env (attempt + 1)))]

def concluded (attempt : Nat) : List Effect :=
  match withTimeout print config.timeout (env.outcome attempt) with
  | .ok _ => [.emitted (.success attempt config.maxAttempts)]
  | .error error =>
    if isRetryableError attempt error config.retryableErrors then
      [.emitted (.exhausted config.maxAttempts error)]
    else []

def attempted (attempt : Nat) : List Effect := .invoked attempt :: recordOf print config env attempt

def trace (first last : Nat) : List Effect :=
  ((range' first (last - first)).flatMap fun attempt =>
    attempted print config env attempt ++ retried print config env attempt) ++
  attempted print config env last ++ concluded print config env last

end Spec

/-! ## Breakers stay -/

namespace Manager

variable {m : Manager} {key k : Key}

section Known

variable (h : m.has key = true)
include h

theorem has_setBreaker (b : Retry.CircuitBreaker) : (m.setBreaker k b).has key = true := by
  show (if key = k then some b else m.circuitBreakers key).isSome = true
  split
  · rfl
  · exact h

theorem has_record (now : Time) (ok : Bool) : (m.record k now ok).has key = true := by
  unfold record
  split
  · exact h
  · exact has_setBreaker h _

theorem has_apply (call : ManagerCall) : (m.apply call).has key = true := by
  cases call with
  | canExecute k now => exact has_setBreaker h _
  | record k now ok => exact has_record h now ok
  | resetCircuitBreaker k =>
    show (m.resetCircuitBreaker k).has key = true
    unfold resetCircuitBreaker
    split
    · exact h
    · exact has_setBreaker h _
  | resetAllCircuitBreakers =>
    simpa [apply, resetAllCircuitBreakers, has] using h

theorem has_foldl_apply (calls : List ManagerCall) : (calls.foldl apply m).has key = true := by
  induction calls generalizing m with
  | nil => exact h
  | cons call calls ih => exact ih (has_apply h call)

end Known

theorem has_canExecute (m : Manager) (key : Key) (now : Time) :
    (m.canExecute key now).2.has key = true := by
  simp [canExecute, has, setBreaker]

end Manager

def Run.Ready (key : Option Key) (run : Run) : Prop := ∀ k ∈ key, run.manager.has k = true

namespace Run

variable {key : Option Key} {run : Run}

theorem Ready.of_manager {run' : Run} (h : run.Ready key) (hm : run'.manager = run.manager) :
    run'.Ready key := fun k hk => hm ▸ h k hk

theorem Ready.invoke (h : run.Ready key) (attempt : Nat) (others : List ManagerCall) :
    (run.invoke attempt others).Ready key :=
  fun k hk => Manager.has_foldl_apply (h k hk) others

theorem Ready.record (h : run.Ready key) (now : Time) (ok : Bool) :
    (run.record key now ok).Ready key := by
  cases key with
  | none => exact h
  | some key => exact fun k hk => Manager.has_record (h k hk) now ok

theorem record_log (h : run.Ready key) (now : Time) (ok : Bool) :
    (run.record key now ok).log = run.log ++ key.toList.map fun key => .recorded key ok := by
  cases key with
  | none => exact (append_nil _).symm
  | some key =>
    have hhas : run.manager.has key = true := h key rfl
    simp [record, hhas]

end Run

/-! ## The log of a call -/

section Log

variable {α : Type} {print : Rat → Text} {config : Config} {env : Environment α} {run : Run}
  {attempt remaining : Nat} {delay : Rat} {last : Option Thrown}

/-- The manager and the log when an attempt has ended and the breaker has been told. -/
def tried (print : Rat → Text) (config : Config) (env : Environment α) (attempt : Nat) (run : Run) :
    Run :=
  (run.invoke attempt (env.others attempt)).record config.key (env.now attempt)
    (withTimeout print config.timeout (env.outcome attempt)).isOk

theorem tried_log (print : Rat → Text) (env : Environment α) (attempt : Nat)
    (h : run.Ready config.key) :
    (tried print config env attempt run).log = run.log ++ attempted print config env attempt := by
  rw [tried, Run.record_log (h.invoke attempt _)]
  simp [Run.invoke, attempted, recordOf]

theorem tried_ready (h : run.Ready config.key) :
    (tried print config env attempt run).Ready config.key :=
  (h.invoke attempt _).record _ _

theorem attempts_ok {v : α} (hv : withTimeout print config.timeout (env.outcome attempt) = .ok v) :
    attempts print config env (remaining + 1) attempt delay last run =
      (.ok v, (tried print config env attempt run).emit (.success attempt config.maxAttempts)) := by
  simp [attempts, tried, hv, Except.isOk, Except.toBool]

variable {e : Thrown}

section Failed

variable (he : withTimeout print config.timeout (env.outcome attempt) = .error e)
include he

theorem attempts_fatal (hr : isRetryableError attempt e config.retryableErrors = false) :
    attempts print config env (remaining + 1) attempt delay last run =
      (.error (.rethrown e), tried print config env attempt run) := by
  simp only [attempts, tried, he, hr, Except.isOk, Except.toBool, Bool.not_false, if_true]

theorem attempts_exhausted (hr : isRetryableError attempt e config.retryableErrors = true)
    (hlast : attempt = config.maxAttempts) :
    attempts print config env (remaining + 1) attempt delay last run =
      (.error (.exhausted (exhaustedMessage print config e) e),
        (tried print config env attempt run).emit (.exhausted config.maxAttempts e)) := by
  simp only [attempts, tried, he, hr, Except.isOk, Except.toBool, Bool.not_true,
    Bool.false_eq_true, if_false, if_pos hlast]

end Failed

def between (config : Config) (env : Environment α) (attempt : Nat) (delay : Rat) (e : Thrown)
    (run : Run) : Run :=
  (if 1 < attempt then run.sleep attempt delay else run).emit
    (.attempt attempt e (calculateNextDelay (env.random attempt) delay config))

theorem attempts_again (he : withTimeout print config.timeout (env.outcome attempt) = .error e)
    (hr : isRetryableError attempt e config.retryableErrors = true)
    (hnot : attempt ≠ config.maxAttempts) :
    attempts print config env (remaining + 1) attempt delay last run =
      attempts print config env remaining (attempt + 1)
        (calculateNextDelay (env.random attempt) delay config) (some e)
        (between config env attempt delay e (tried print config env attempt run)) := by
  simp only [attempts, tried, between, he, hr, Except.isOk, Except.toBool, Bool.not_true,
    Bool.false_eq_true, if_false, if_neg hnot]

theorem between_ready (h : run.Ready config.key) :
    (between config env attempt delay e run).Ready config.key := by
  refine h.of_manager ?_
  unfold between
  split <;> rfl

theorem delayAt_succ (config : Config) (env : Environment α) (hpos : 1 ≤ attempt) :
    delayAt config env (attempt + 1) =
      calculateNextDelay (env.random attempt) (delayAt config env attempt) config := by
  cases attempt with
  | zero => exact absurd hpos (by decide)
  | succ attempt => rfl

theorem between_log (hpos : 1 ≤ attempt) (hdelay : delay = delayAt config env attempt)
    (he : withTimeout print config.timeout (env.outcome attempt) = .error e) :
    (between config env attempt delay e run).log = run.log ++ retried print config env attempt := by
  subst hdelay
  unfold between retried
  rw [he, delayAt_succ config env hpos]
  split <;> simp [Run.emit, Run.sleep]

/-! ### The last attempt -/

theorem decisive_ok {v : α} (hv : withTimeout print config.timeout (env.outcome attempt) = .ok v) :
    decisive print config env attempt = true := by
  simp [decisive, hv]

theorem decisive_error (he : withTimeout print config.timeout (env.outcome attempt) = .error e) :
    decisive print config env attempt = !isRetryableError attempt e config.retryableErrors := by
  simp [decisive, he]

/-- The last attempt, of those from `first` on. -/
def lastFrom (print : Rat → Text) (config : Config) (env : Environment α)
    (first count : Nat) : Nat :=
  ((range' first count).find? (decisive print config env)).getD config.maxAttempts

theorem lastFrom_of_decisive (hd : decisive print config env attempt = true) :
    lastFrom print config env attempt (remaining + 1) = attempt := by
  rw [lastFrom, range'_succ, find?_cons_of_pos hd, Option.getD_some]

theorem lastFrom_of_not_decisive (hd : decisive print config env attempt = false) :
    lastFrom print config env attempt (remaining + 1) =
      lastFrom print config env (attempt + 1) remaining := by
  rw [lastFrom, range'_succ, find?_cons_of_neg (by simp [hd]), lastFrom]

theorem le_lastFrom (h : attempt ≤ config.maxAttempts) :
    attempt ≤ lastFrom print config env attempt remaining := by
  unfold lastFrom
  cases hf : (range' attempt remaining).find? (decisive print config env) with
  | none => exact h
  | some k => exact (mem_range'_1.mp (mem_of_find?_eq_some hf)).1

theorem trace_self : trace print config env attempt attempt =
      attempted print config env attempt ++ concluded print config env attempt := by
  simp [trace]

theorem trace_succ {k : Nat} (h : attempt + 1 ≤ k) : trace print config env attempt k =
      attempted print config env attempt ++ retried print config env attempt ++
        trace print config env (attempt + 1) k := by
  have hlen : k - attempt = k - (attempt + 1) + 1 := by omega
  simp [trace, hlen, range'_succ]

theorem attempts_of_decisive (hd : decisive print config env attempt = true)
    (h : run.Ready config.key) :
    (attempts print config env (remaining + 1) attempt delay last run).1 =
        answer print config env attempt ∧
      (attempts print config env (remaining + 1) attempt delay last run).2.log =
        run.log ++ trace print config env attempt attempt := by
  have hlog := tried_log print env attempt h
  rw [trace_self, ← append_assoc, ← hlog]
  cases hv : withTimeout print config.timeout (env.outcome attempt) with
  | ok v =>
    rw [attempts_ok hv]
    exact ⟨by simp only [answer, hv], by simp only [concluded, hv, Run.emit]⟩
  | error e =>
    have hr : isRetryableError attempt e config.retryableErrors = false := by
      simpa using (decisive_error hv).symm.trans hd
    rw [attempts_fatal hv hr]
    exact ⟨by simp [answer, hv, hr], by simp [concluded, hv, hr]⟩

theorem exists_retryable (hd : ¬ decisive print config env attempt = true) :
    ∃ e, withTimeout print config.timeout (env.outcome attempt) = .error e ∧
      isRetryableError attempt e config.retryableErrors = true := by
  cases hv : withTimeout print config.timeout (env.outcome attempt) with
  | ok v => exact absurd (decisive_ok hv) hd
  | error e =>
    rw [decisive_error hv] at hd
    exact ⟨e, rfl, by simpa using hd⟩

/-- **The log of the loop.** It runs to the last attempt, says what that one decides, and its log is
that of the attempts in order. -/
theorem attempts_eq (print : Rat → Text) (last : Option Thrown) (hpos : 1 ≤ attempt)
    (hcount : attempt + remaining = config.maxAttempts)
    (hdelay : delay = delayAt config env attempt) (h : run.Ready config.key) :
    (attempts print config env (remaining + 1) attempt delay last run).1 =
        answer print config env (lastFrom print config env attempt (remaining + 1)) ∧
      (attempts print config env (remaining + 1) attempt delay last run).2.log =
        run.log ++ trace print config env attempt
          (lastFrom print config env attempt (remaining + 1)) := by
  induction remaining generalizing attempt delay last run with
  | zero =>
    by_cases hd : decisive print config env attempt = true
    · rw [lastFrom_of_decisive hd]
      exact attempts_of_decisive hd h
    · -- the attempts are used up
      obtain ⟨e, he, hr⟩ := exists_retryable hd
      have hlast : lastFrom print config env attempt 1 = attempt :=
        (lastFrom_of_not_decisive (Bool.eq_false_iff.mpr hd)).trans hcount.symm
      rw [attempts_exhausted he hr hcount, hlast, trace_self, ← append_assoc,
        ← tried_log print env attempt h]
      exact ⟨by simp [answer, he, hr], by simp [concluded, he, hr, Run.emit]⟩
  | succ remaining ih =>
    by_cases hd : decisive print config env attempt = true
    · rw [lastFrom_of_decisive hd]
      exact attempts_of_decisive hd h
    · obtain ⟨e, he, hr⟩ := exists_retryable hd
      have hnot : attempt ≠ config.maxAttempts := by omega
      have hnext : calculateNextDelay (env.random attempt) delay config =
          delayAt config env (attempt + 1) := by
        rw [delayAt_succ config env hpos, hdelay]
      have hready : (between config env attempt delay e
          (tried print config env attempt run)).Ready config.key := between_ready (tried_ready h)
      have hlog : (between config env attempt delay e (tried print config env attempt run)).log =
          run.log ++ (attempted print config env attempt ++ retried print config env attempt) := by
        rw [between_log hpos hdelay he, tried_log print env attempt h, append_assoc]
      have hlater : attempt + 1 ≤ lastFrom print config env (attempt + 1) (remaining + 1) :=
        le_lastFrom (by omega)
      rw [attempts_again he hr hnot, lastFrom_of_not_decisive (Bool.eq_false_iff.mpr hd),
        trace_succ hlater, ← append_assoc, ← hlog]
      exact ih (some e) (Nat.le_add_left 1 attempt) (by omega) hnext hready

end Log

theorem executeWithRetry_eq {α : Type} (print : Rat → Text) (options : RetryOptions)
    (env : Environment α) (m : Manager) (hn : 1 ≤ options.resolve.maxAttempts)
    (hallowed : (admission options.resolve env m).1 = true) :
    (executeWithRetry print options env m).1 =
        answer print options.resolve env (lastAttempt print options.resolve env) ∧
      (executeWithRetry print options env m).2.log =
        trace print options.resolve env 1 (lastAttempt print options.resolve env) := by
  obtain ⟨remaining, hrem⟩ := Nat.exists_eq_add_of_le' hn
  have hready : Run.Ready options.resolve.key ⟨(admission options.resolve env m).2, []⟩ := by
    intro key hkey
    unfold admission
    rw [Option.mem_def.mp hkey]
    exact Manager.has_canExecute m key _
  have heq : executeWithRetry print options env m =
      attempts print options.resolve env options.resolve.maxAttempts 1
        options.resolve.initialDelay none ⟨(admission options.resolve env m).2, []⟩ := by
    unfold executeWithRetry
    obtain ⟨ok, m', hm⟩ : ∃ ok m', admission options.resolve env m = (ok, m') := ⟨_, _, rfl⟩
    rw [hm] at hallowed
    obtain rfl : ok = true := hallowed
    simp [hm]
  have hcount : 1 + remaining = options.resolve.maxAttempts := by omega
  have hdelay : options.resolve.initialDelay = delayAt options.resolve env 1 := rfl
  have hrun := attempts_eq print none (Nat.le_refl 1) hcount hdelay hready
  rw [← hrem] at hrun
  rw [heq]
  exact hrun

/-! ## Invocations, results and records -/

def Effect.invocation : Effect → Option Nat
  | .invoked attempt => some attempt
  | .recorded .. | .slept .. | .emitted _ => none

def Effect.record : Effect → Option (Key × Bool)
  | .recorded key ok => some (key, ok)
  | .invoked _ | .slept .. | .emitted _ => none

def Effect.sleep : Effect → Option (Nat × Rat)
  | .slept attempt ms => some (attempt, ms)
  | .invoked _ | .recorded .. | .emitted _ => none

section Reading

variable {α : Type} (print : Rat → Text) (config : Config) (env : Environment α) {β : Type}

theorem filterMap_trace (f : Effect → Option β) (first last : Nat) :
    (trace print config env first last).filterMap f =
      ((range' first (last - first)).flatMap fun attempt =>
        (attempted print config env attempt).filterMap f ++
          (retried print config env attempt).filterMap f) ++
      (attempted print config env last).filterMap f ++
        (concluded print config env last).filterMap f := by
  simp [trace, filterMap_append, filterMap_flatMap]

variable {f : Effect → Option β}

theorem filterMap_retried (hsleep : ∀ attempt ms, f (.slept attempt ms) = none)
    (hemit : ∀ event, f (.emitted event) = none) (attempt : Nat) :
    (retried print config env attempt).filterMap f = [] := by
  unfold retried
  split
  · rfl
  · split <;> simp [hsleep, hemit]

theorem filterMap_concluded (hemit : ∀ event, f (.emitted event) = none) (attempt : Nat) :
    (concluded print config env attempt).filterMap f = [] := by
  unfold concluded
  split
  · simp [hemit]
  · split <;> simp [hemit]

theorem flatMap_range'_concat (f : Nat → List β) {first last : Nat} (h : first ≤ last) :
    (range' first (last - first)).flatMap f ++ f last =
      (range' first (last + 1 - first)).flatMap f := by
  have hlen : last + 1 - first = last - first + 1 := by omega
  have hlast : first + (last - first) = last := by omega
  rw [hlen, range'_concat, flatMap_append, Nat.one_mul, hlast]
  simp

theorem filterMap_trace_attempted (hsleep : ∀ attempt ms, f (.slept attempt ms) = none)
    (hemit : ∀ event, f (.emitted event) = none) {last : Nat} (h : 1 ≤ last) :
    (trace print config env 1 last).filterMap f = (range' 1 last).flatMap fun attempt =>
        (attempted print config env attempt).filterMap f := by
  rw [filterMap_trace, filterMap_concluded print config env hemit, append_nil]
  simp only [filterMap_retried print config env hsleep hemit, append_nil]
  exact flatMap_range'_concat _ h

theorem filterMap_attempted (f : Effect → Option β) (attempt : Nat) :
    (attempted print config env attempt).filterMap f =
      (f (.invoked attempt)).toList ++ (recordOf print config env attempt).filterMap f := by
  unfold attempted
  cases hf : f (.invoked attempt) with
  | none | some => simp [hf]

theorem invocations_trace {last : Nat} (h : 1 ≤ last) :
    (trace print config env 1 last).filterMap Effect.invocation = range' 1 last := by
  have hone : ∀ attempt,
      (attempted print config env attempt).filterMap Effect.invocation = [attempt] := by
    intro attempt
    rw [filterMap_attempted]
    simp [recordOf, Effect.invocation]
  rw [filterMap_trace_attempted print config env (fun _ _ => rfl) (fun _ => rfl) h]
  simp [hone, flatMap_singleton']

def report (attempt : Nat) : List (Key × Bool) :=
  config.key.toList.map fun key =>
    (key, (withTimeout print config.timeout (env.outcome attempt)).isOk)

theorem records_trace {last : Nat} (h : 1 ≤ last) :
    (trace print config env 1 last).filterMap Effect.record =
      (range' 1 last).flatMap (report print config env) := by
  have hone : ∀ attempt, (attempted print config env attempt).filterMap Effect.record =
        report print config env attempt := by
    intro attempt
    rw [filterMap_attempted]
    simp [recordOf, report, Effect.record, filterMap_map, Function.comp_def]
  rw [filterMap_trace_attempted print config env (fun _ _ => rfl) (fun _ => rfl) h]
  simp [hone]

/-- `k` is the smaller of `n` and the place of the first decisive outcome. -/
def IsLast (n k : Nat) : Prop :=
  1 ≤ k ∧ k ≤ n ∧ (∀ i, 1 ≤ i → i < k → decisive print config env i = false) ∧
    (k = n ∨ decisive print config env k = true)

theorem isLast_lastAttempt (hn : 1 ≤ config.maxAttempts) :
    IsLast print config env config.maxAttempts (lastAttempt print config env) := by
  unfold lastAttempt
  cases hf : (range' 1 config.maxAttempts).find? (decisive print config env) with
  | none =>
    refine ⟨hn, Nat.le_refl _, ?_, .inl rfl⟩
    intro i hi hlt
    have hnot := find?_eq_none.mp hf i (mem_range'_1.mpr ⟨hi, Nat.lt_add_left 1 hlt⟩)
    exact Bool.eq_false_iff.mpr hnot
  | some k =>
    obtain ⟨hd, hmem, hfirst⟩ := find?_range'_eq_some.mp hf
    obtain ⟨hk, hle⟩ := mem_range'_1.mp hmem
    refine ⟨hk, ?_, ?_, .inr hd⟩
    · rw [Nat.add_comm] at hle
      exact Nat.le_of_lt_succ hle
    · intro i hi hlt
      simpa using hfirst i hi hlt

end Reading

/-- **How often a call with retries invokes the function, how it ends, and what its breaker is
told.** -/
theorem executeWithRetry_outcomes {α : Type} (print : Rat → Text) (options : RetryOptions)
    (env : Environment α) (m : Manager) (hn : 1 ≤ options.resolve.maxAttempts)
    (hallowed : (admission options.resolve env m).1 = true) :
    ∃ k, IsLast print options.resolve env options.resolve.maxAttempts k ∧
      (executeWithRetry print options env m).2.log.filterMap Effect.invocation = range' 1 k ∧
      (∀ v, withTimeout print options.resolve.timeout (env.outcome k) = .ok v →
        (executeWithRetry print options env m).1 = .ok v) ∧
      (∀ e, withTimeout print options.resolve.timeout (env.outcome k) = .error e →
        isRetryableError k e options.resolve.retryableErrors = false →
        (executeWithRetry print options env m).1 = .error (.rethrown e)) ∧
      (∀ e, withTimeout print options.resolve.timeout (env.outcome k) = .error e →
        isRetryableError k e options.resolve.retryableErrors = true →
        k = options.resolve.maxAttempts ∧
        (executeWithRetry print options env m).1 =
          .error (.exhausted (exhaustedMessage print options.resolve e) e)) ∧
      (executeWithRetry print options env m).2.log.filterMap Effect.record =
        (range' 1 k).flatMap (report print options.resolve env) := by
  obtain ⟨hanswer, hlog⟩ := executeWithRetry_eq print options env m hn hallowed
  have hlast := isLast_lastAttempt print options.resolve env hn
  refine ⟨_, hlast, ?_, ?_, ?_, ?_, ?_⟩
  · rw [hlog, invocations_trace print options.resolve env hlast.1]
  · intro v hv
    simp [hanswer, answer, hv]
  · intro e he hr
    simp only [hanswer, answer, he, hr, Bool.false_eq_true, if_false]
  · intro e he hr
    refine ⟨?_, by simp only [hanswer, answer, he, hr, if_true]⟩
    -- an error that is retried is not decisive
    refine hlast.2.2.2.resolve_right ?_
    rw [decisive_error he, hr]
    decide
  · rw [hlog, records_trace print options.resolve env hlast.1]

def resetOnce : Environment Nat where
  outcome attempt := if attempt = 1 then .error { code := some (ofString "ECONNRESET") } else .value
    7
  random _ := 0
  random_nonneg _ := le_refl 0
  random_lt_one _ := zero_lt_one
  now attempt := attempt
  others _ := []

theorem executeWithRetry_outcomes_resetOnce :
    ∃ k, IsLast (fun _ => []) { circuitBreakerKey := some [107] : RetryOptions }.resolve resetOnce 3
        k ∧ k = 2 ∧
      (executeWithRetry (fun _ => []) { circuitBreakerKey := some [107] } resetOnce {}).1 = .ok 7 ∧
      (executeWithRetry (fun _ => []) { circuitBreakerKey := some [107] } resetOnce
        {}).2.log.filterMap Effect.record = [([107], false), ([107], true)] := by
  obtain ⟨k, hlast, -, hvalue, -, -, hrecords⟩ := executeWithRetry_outcomes (fun _ => [])
    { circuitBreakerKey := some [107] } resetOnce {} (by decide) (by decide)
  have hfirst : decisive (fun _ => []) { circuitBreakerKey := some [107] : RetryOptions }.resolve
      resetOnce 1 = false := by decide
  have hsecond : decisive (fun _ => []) { circuitBreakerKey := some [107] : RetryOptions }.resolve
      resetOnce 2 = true := by decide
  have hk : k = 2 := by
    obtain ⟨hpos, -, hbefore, hstop⟩ := hlast
    have hone : k ≠ 1 := by
      rintro rfl
      cases hstop with
      | inl h => exact absurd h (by decide)
      | inr h => exact absurd (hfirst.symm.trans h) (by decide)
    have htwo : ¬ 2 < k := by
      intro h
      exact absurd ((hbefore 2 (by decide) h).symm.trans hsecond) (by decide)
    omega
  subst hk
  exact ⟨2, hlast, rfl, hvalue 7 rfl, hrecords⟩

end Bridge.Retry
