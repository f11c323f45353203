import Mathlib.Data.Rat.Floor
import Bridge.Domain.ResultEntity
import Bridge.Domain.TaskEvents
import Bridge.UseCases.ExecuteTask

/-!
# One call of `ExecuteTaskUseCase.execute`, with all it passes on

`UseCases/ExecuteTask` has any number of calls for one task, and of each no more than its place.
Here one call runs alone, with the values that go through it: what is thrown, the result that is
made of it, and the events. A `Circumstances` says what every `await` of the call settles with.

Not modelled: log lines, metrics, and the times of the events on the bus.
-/

namespace Bridge.UseCases.Execution

open Lib Utf16 Domain

/-! ## What the call is given -/

structure Options where
  forceAdapter : Option AdapterType := none
  timeout : Option Rat := none
  retryOnFailure : Bool := false
  validateResult : Bool := false

structure ExecuteTaskCommand where
  taskId : String
  options : Options := {}

inductive Outcome
  | success
  | failure
  deriving DecidableEq

structure ExecuteTaskResult where
  taskId : String
  resultId : Units
  output : Units
  adapter : AdapterType
  executionTime : Rat
  status : Outcome
  error : Message
  validationScore : Option Rat
  deriving DecidableEq

structure AdapterResult where
  output : Units
  tokensUsed : Option Rat := none
  model : Option Units := none
  retryCount : Option Rat := none
  deriving DecidableEq

structure Attempt where
  settlesAfter : Option Rat
  outcome : Except Thrown AdapterResult

structure AIAdapter where
  type : AdapterType
  -- by the number of the call
  execute : Nat → Attempt

/-- How `save` settles. One that rejects may have stored the task. -/
inductive Saved
  | ok
  | rejected (error : Thrown) (stored : Bool)

/-- What the call meets with: how the collaborators answer, at each place where one is asked, and
what the clock says. -/
structure Circumstances where
  /-- `findById` returns a copy of the stored task. If not, it returns the stored task itself. -/
  copies : Bool
  lowerCase : LowerCase
  findById : Except Thrown Unit
  saveStarted : Saved
  emitStarted : Except Thrown Unit
  route : Except Thrown AdapterType
  registry : AdapterType → Option AIAdapter
  saveResult : Except Thrown Unit
  saveEnded : Saved
  validate : ResultEntity → TaskEntity → Except Thrown Rat
  emitCompleted : Except Thrown Unit
  findAgain : Except Thrown Unit
  saveFailed : Saved
  emitFailed : Except Thrown Unit
  stamp : ResultEntity.Stamp
  /-- `Date.now() - adapterStartTime` -/
  executionTime : Rat
  -- the two readings of each `updateStatus`
  startedAt : Nat × Nat
  endedAt : Nat × Nat
  failedAt : Nat × Nat

/-! ## What the call changes -/

structure Tasks where
  find : TaskId → Option TaskEntity
  keyed : ∀ id t, find id = some t → t.props.id = id

namespace Tasks

def status (s : Tasks) (id : TaskId) : Option TaskStatus := (s.find id).map (·.props.status)

def save (s : Tasks) (t : TaskEntity) : Tasks where
  find id := if id = t.props.id then some t else s.find id
  keyed id t' h := by
    by_cases hid : id = t.props.id
    · rw [if_pos hid] at h
      cases h
      exact hid.symm
    · rw [if_neg hid] at h
      exact s.keyed id t' h

@[simp] theorem status_save (s : Tasks) (t : TaskEntity) :
    (s.save t).status t.props.id = some t.props.status := by
  simp [status, save]

end Tasks

inductive Event
  | started (taskId : String)
  | completed (taskId : String) (resultId : Units) (adapter : AdapterType) (success : Bool)
  | failed (taskId : String) (error : Message)
  deriving DecidableEq

structure World where
  tasks : Tasks
  results : List ResultEntity
  /-- What the adapter calls settled with, as it was awaited; `none` for one that does not. -/
  calls : List (Option (Except Thrown AdapterResult))
  /-- The events on the bus, each with the status the task had when it came. -/
  events : List (Event × Option TaskStatus)

inductive Halt
  | threw (error : Thrown)
  -- it awaits what never settles
  | hangs
  deriving DecidableEq

abbrev Method := Prog World Halt

/-- `await`, for what settles so. -/
def await {α : Type} : Except Thrown α → Method α
  | .ok a => pure a
  | .error e => throw (.threw e)

/-- `try { x } catch (error) { handler error }` -/
def attempt {α : Type} (x : Method α) (handler : Thrown → Method α) : Method α :=
  tryCatch x fun
    | .threw e => handler e
    | .hangs => throw .hangs

/-! ## The methods -/

section Methods

variable (c : Circumstances)

section Adapters

variable (task : TaskEntity) (adapter : AIAdapter)

/-- `taskRepository.save` -/
def saveTask : Saved → Method Unit
  | .ok => modify fun w => { w with tasks := w.tasks.save task }
  | .rejected e stored => do
    if stored then modify fun w => { w with tasks := w.tasks.save task }
    throw (.threw e)

/-- `taskRepository.findById` -/
def findTask (reply : Except Thrown Unit) (id : TaskId) : Method (Option TaskEntity) := do
  await reply
  return (← get).tasks.find id

/-- `task.updateStatus`. Where the task is the stored one, it is stored with the new status. -/
def updateStatus (task : TaskEntity) (newStatus : TaskStatus) (readings : Nat × Nat) :
    Method TaskEntity :=
  match (TaskEntity.updateStatus newStatus readings.1 readings.2).on task with
  | (.error message, _) => throw (.threw (.error message))
  | (.ok (), task) => do
    if !c.copies then modify fun w => { w with tasks := w.tasks.save task }
    return task

/-- `eventBus.emit` -/
def emit (id : TaskId) (event : Event) (reply : Except Thrown Unit) : Method Unit := do
  modify fun w => { w with events := w.events ++ [(event, w.tasks.status id)] }
  await reply

def isRetryableError (error : Thrown) : Except Thrown Bool := do
  let message ← error.message
  let hit ← nonRetryableErrors.anyM fun msg =>
    message.mentions c.lowerCase (c.lowerCase.lower (ofString msg))
  return !hit

/-- The delay of a timer: what is no delay counts as one millisecond. -/
def timerDelay (ms : Rat) : Rat := if 1 ≤ ms ∧ ms ≤ 2147483647 then ⌊ms⌋ else 1

/-- What `executeWithTimeout` settles with. The timer is started after the adapter, so an adapter
that settles with it is first. -/
def executeWithTimeout (promise : Attempt) (timeout : Rat) : Except Thrown AdapterResult :=
  match promise.settlesAfter with
  | some ms => if ms ≤ timerDelay timeout then promise.outcome else
    .error (.error "Task execution timeout")
  | none => .error (.error "Task execution timeout")

/-- `options?.timeout || task.metadata.constraints?.timeout || 30000` -/
def timeoutOf (options : Options) (task : TaskEntity) : Rat :=
  match options.timeout.filter (· ≠ 0) with
  | some timeout => timeout
  | none =>
    match (task.props.metadata.constraints.bind (·.timeout)).filter (· ≠ 0) with
    | some timeout => timeout
    | none => 30000

def called (outcome : Option (Except Thrown AdapterResult)) : Method Unit :=
  modify fun w => { w with calls := w.calls ++ [outcome] }

def succeeded (r : AdapterResult) (retryCount : Option Rat) : ResultEntity :=
  .createSuccess c.stamp task.props.id r.output adapter.type
    { executionTime := c.executionTime, tokensUsed := r.tokensUsed, model := r.model,
      retryCount := retryCount }

/-- `Result.createError`, for what was thrown. -/
def failedWith (error : Thrown) : Method ResultEntity :=
  do
  let message ← await error.message
  return .createError c.stamp task.props.id message adapter.type c.executionTime

def retry : Method ResultEntity := do
  match (adapter.execute 1).settlesAfter, (adapter.execute 1).outcome with
  | none, _ =>
    called none
    throw .hangs
  | some _, .ok r =>
    called (some (.ok r))
    return succeeded c task adapter r (some 1)
  | some _, .error e =>
    called (some (.error e))
    failedWith c task adapter e

def executeWithAdapter (options : Options) : Method ResultEntity := do
  let outcome := executeWithTimeout (adapter.execute 0) (timeoutOf options task)
  called (some outcome)
  match outcome with
  | .ok r => return succeeded c task adapter r r.retryCount
  | .error error =>
    if options.retryOnFailure then
      -- the negation is the source's
      if !(← await (isRetryableError c error)) then retry c task adapter
      else failedWith c task adapter error
    else failedWith c task adapter error

end Adapters

/-- `execute`, up to the event of the start. -/
def startTask (command : ExecuteTaskCommand) (id : TaskId) : Method TaskEntity := do
  match ← findTask c.findById id with
  | none => throw (.threw (.error ("Task not found: " ++ command.taskId)))
  | some task =>
    if !task.canTransitionTo .inProgress then
      throw (.threw (.error ("Cannot transition from " ++ task.props.status.text ++
        " to IN_PROGRESS")))
    else
      let task ← updateStatus c task .inProgress c.startedAt
      saveTask task c.saveStarted
      emit id (.started command.taskId) c.emitStarted
      return task

def selectAdapter (options : Options) : Except Thrown AIAdapter := do
  let selectedAdapter ←
    match options.forceAdapter with
    | some a => pure a
    | none => c.route
  match c.registry selectedAdapter with
  | none => throw (.error ("Adapter not available: " ++ selectedAdapter.text))
  | some adapter => return adapter

section Commands

variable (command : ExecuteTaskCommand)

/-- Up to the result and its `save`. -/
def obtainResult (id : TaskId) : Method (TaskEntity × ResultEntity) := do
  let task ← startTask c command id
  let adapter ← await (selectAdapter c command.options)
  let result ← executeWithAdapter c task adapter command.options
  await c.saveResult
  modify fun w => { w with results := w.results ++ [result] }
  return (task, result)

def answerOf (result : ResultEntity) (validationScore : Option Rat) : ExecuteTaskResult where
  taskId := command.taskId
  resultId := result.id
  output := result.output
  adapter := result.adapter
  executionTime := result.executionTime
  status := if result.isSuccess then .success else .failure
  error := result.error
  validationScore := validationScore

/-- When the task has its final status: the validation, the event and the answer. -/
def conclude (id : TaskId) (task : TaskEntity) (result : ResultEntity) :
    Method ExecuteTaskResult := do
  let validationScore ←
    if command.options.validateResult && result.isSuccess then
      some <$> await (c.validate result task)
    else pure none
  emit id (.completed command.taskId result.id result.adapter result.isSuccess) c.emitCompleted
  return answerOf command result validationScore

/-- `execute`, when there is a result. -/
def finish (id : TaskId) (task : TaskEntity) (result : ResultEntity) :
    Method ExecuteTaskResult := do
  let task ← updateStatus c task (if result.isSuccess then .completed else .failed) c.endedAt
  saveTask task c.saveEnded
  conclude c command id task result

end Commands

/-- What the `catch` block does to the task it finds. -/
def failStarted (task : TaskEntity) : Method Unit :=
  if task.props.status = .inProgress then do
    let task ← updateStatus c task .failed c.failedAt
    saveTask task c.saveFailed
  else return

def failTask (id : TaskId) : Method Unit := do
  match ← findTask c.findAgain id with
  | none => return
  | some task => failStarted c task

/-- The `catch` block. -/
def recover (command : ExecuteTaskCommand) (id : TaskId) (error : Thrown) :
    Method ExecuteTaskResult := do
  attempt (failTask c id) fun _ => return
  let message ← await error.message
  emit id (.failed command.taskId message) c.emitFailed
  throw (.threw error)

def execute (command : ExecuteTaskCommand) : Method ExecuteTaskResult :=
  match TaskId.fromString command.taskId with
  | .error message => throw (.threw (.error message))
  | .ok id =>
    attempt (do
        let (task, result) ← obtainResult c command id
        finish c command id task result)
      (recover c command id)

end Methods

/-! ## One step after another -/

variable {c : Circumstances} {w w' : World} {id : TaskId} {task : TaskEntity} {st : TaskStatus}
  {readings : Nat × Nat} {e : Thrown}

section Steps

variable {α β : Type} {x : Method α} {handler : Thrown → Method α} {a : α}

@[simp] theorem on_await_ok : (await (.ok a)).on w = (.ok a, w) := rfl

theorem on_attempt_threw (h : x.on w = (.error (.threw e), w')) :
    (attempt x handler).on w = (handler e).on w' := Prog.on_tryCatch_error h

theorem on_attempt_hangs (h : x.on w = (.error .hangs, w')) :
    (attempt x handler).on w = (.error .hangs, w') := Prog.on_tryCatch_error h

theorem on_attempt_ok (h : x.on w = (.ok a, w')) :
    (attempt x handler).on w = (.ok a, w') := Prog.on_tryCatch_ok h

theorem on_attempt_congr {y : Method α} (h : x.on w = y.on w) :
    (attempt x handler).on w = (attempt y handler).on w := by
  rcases hy : y.on w with ⟨(⟨e⟩ | ⟨⟩) | a, w'⟩
  · rw [on_attempt_threw hy, on_attempt_threw (h.trans hy)]
  · rw [on_attempt_hangs hy, on_attempt_hangs (h.trans hy)]
  · rw [on_attempt_ok hy, on_attempt_ok (h.trans hy)]

end Steps

def moved (task : TaskEntity) (st : TaskStatus) (readings : Nat × Nat) : TaskEntity :=
  ((TaskEntity.updateStatus st readings.1 readings.2).on task).2

section Transition

variable (h : task.canTransitionTo st = true)
include h

theorem on_taskUpdateStatus : (TaskEntity.updateStatus st readings.1 readings.2).on task =
      (.ok (), ⟨{ task.props with status := st, updatedAt := readings.1 }, task.events ++
        [⟨task.props.id.value, .taskStatusUpdated task.props.id.value task.props.status
          st readings.1, task.events.length + 1, readings.2⟩]⟩) := by
  unfold TaskEntity.updateStatus
  rw [Prog.on_get_bind, h]
  rfl

@[simp] theorem moved_status : (moved task st readings).props.status = st := by
  rw [moved, on_taskUpdateStatus h]

@[simp] theorem moved_id : (moved task st readings).props.id = task.props.id := by
  rw [moved, on_taskUpdateStatus h]

end Transition

theorem canTransitionTo_end (b : Bool) (h : task.props.status = .inProgress) :
    task.canTransitionTo (if b then .completed else .failed) = true := by
  cases b <;> simp [TaskEntity.canTransitionTo, h, TaskStatus.allowed]

def shown (c : Circumstances) (task : TaskEntity) (w : World) : World :=
  if c.copies then w else { w with tasks := w.tasks.save task }

theorem on_updateStatus (h : task.canTransitionTo st = true) :
    (updateStatus c task st readings).on w =
      (.ok (moved task st readings), shown c (moved task st readings) w) := by
  rw [moved, updateStatus, on_taskUpdateStatus h, shown]
  cases c.copies <;> rfl

theorem on_saveTask_ok : (saveTask task .ok).on w =
    (.ok (), { w with tasks := w.tasks.save task }) := rfl

theorem on_saveTask_rejected {stored : Bool} : (saveTask task (.rejected e stored)).on w =
      (.error (.threw e), if stored then { w with tasks := w.tasks.save task } else w) := by
  cases stored <;> rfl

theorem on_findTask_ok : (findTask (.ok ()) id).on w = (.ok (w.tasks.find id), w) := rfl

theorem on_findTask_error : (findTask (.error e) id).on w = (.error (.threw e), w) := rfl

/-! ## What the adapter is asked for -/

section Adapter

variable (c : Circumstances)

/-- The error mentions one of the phrases, in any letter case. -/
def Mentions (error : Thrown) : Prop :=
  ∃ t status, error = .value (.text t) status ∧ ∃ msg ∈ nonRetryableErrors,
    includes (c.lowerCase.lower t) (c.lowerCase.lower (ofString msg)) = true

theorem isRetryableError_text (t : Units) (status : Option Int) :
    isRetryableError c (.value (.text t) status) = .ok (!nonRetryableErrors.any fun msg =>
      includes (c.lowerCase.lower t) (c.lowerCase.lower (ofString msg))) := by
  have h : nonRetryableErrors.anyM (m := Except Thrown) (fun msg =>
      (Message.text t).mentions c.lowerCase (c.lowerCase.lower (ofString msg))) = _ :=
    List.anyM_pure
  show (nonRetryableErrors.anyM (m := Except Thrown) _ >>= fun hit => pure !hit) = _
  rw [h]
  rfl

theorem isRetryableError_missing (status : Option Int) :
    isRetryableError c (.value .missing status) = .ok true := rfl

theorem isRetryableError_other (truthy : Bool) (status : Option Int) :
    isRetryableError c (.value (.other truthy) status) = .error .notAFunction := rfl

theorem isRetryableError_nullish : isRetryableError c .nullish = .error .typeError := rfl

theorem isRetryableError_eq_false (error : Thrown) :
    isRetryableError c error = .ok false ↔ Mentions c error := by
  rcases error with _ | ⟨_ | t | truthy, status⟩
  · simp [isRetryableError_nullish, Mentions]
  · simp [isRetryableError_missing, Mentions]
  · simp [isRetryableError_text, Mentions]
  · simp [isRetryableError_other, Mentions]

variable (task : TaskEntity) (adapter : AIAdapter) (options : Options)

def reportOf (retryCount : AdapterResult → Option Rat) :
    Except Thrown AdapterResult → Except Halt ResultEntity
  | .ok r => .ok (succeeded c task adapter r (retryCount r))
  | .error (.value message _) =>
    .ok (.createError c.stamp task.props.id message adapter.type c.executionTime)
  | .error .nullish => .error (.threw .typeError)

/-- How `executeWithAdapter` ends, and what the adapter calls have come to. -/
inductive Course : Except Halt ResultEntity → List (Option (Except Thrown AdapterResult)) → Prop
  | answered {r : AdapterResult}
      (first : executeWithTimeout (adapter.execute 0) (timeoutOf options task) = .ok r) :
      Course (reportOf c task adapter (·.retryCount) (.ok r)) [some (.ok r)]
  | givenUp {e : Thrown}
      (first : executeWithTimeout (adapter.execute 0) (timeoutOf options task) = .error e)
      (once : options.retryOnFailure = true → isRetryableError c e = .ok true) :
      Course (reportOf c task adapter (·.retryCount) (.error e)) [some (.error e)]
  -- the error could not be classified
  | confused {e e' : Thrown}
      (first : executeWithTimeout (adapter.execute 0) (timeoutOf options task) = .error e)
      (wanted : options.retryOnFailure = true) (unclear : isRetryableError c e = .error e') :
      Course (.error (.threw e')) [some (.error e)]
  | hung {e : Thrown}
      (first : executeWithTimeout (adapter.execute 0) (timeoutOf options task) = .error e)
      (wanted : options.retryOnFailure = true) (phrase : isRetryableError c e = .ok false)
      (second : (adapter.execute 1).settlesAfter = none) :
      Course (.error .hangs) [some (.error e), none]
  | retried {e : Thrown} {ms : Rat}
      (first : executeWithTimeout (adapter.execute 0) (timeoutOf options task) = .error e)
      (wanted : options.retryOnFailure = true) (phrase : isRetryableError c e = .ok false)
      (second : (adapter.execute 1).settlesAfter = some ms) :
      Course (reportOf c task adapter (fun _ => some 1) (adapter.execute 1).outcome)
        [some (.error e), some (adapter.execute 1).outcome]

variable {c task adapter options}

theorem on_failedWith {k : AdapterResult → Option Rat} :
    (failedWith c task adapter e).on w = (reportOf c task adapter k (.error e), w) := by
  cases e <;> rfl

theorem on_retry_settled {ms : Rat} (h : (adapter.execute 1).settlesAfter = some ms) :
    (retry c task adapter).on w =
      (reportOf c task adapter (fun _ => some 1) (adapter.execute 1).outcome,
        { w with calls := w.calls ++ [some (adapter.execute 1).outcome] }) := by
  unfold retry
  rw [h]
  cases (adapter.execute 1).outcome with
  | ok r => rfl
  | error e => cases e <;> rfl

theorem on_retry_hangs (h : (adapter.execute 1).settlesAfter = none) :
    (retry c task adapter).on w = (.error .hangs, { w with calls := w.calls ++ [none] }) := by
  unfold retry
  rw [h]
  rfl

theorem on_executeWithAdapter (c : Circumstances) (task : TaskEntity) (adapter : AIAdapter)
    (options : Options) (w : World) : ∃ r calls, Course c task adapter options r calls ∧
      (executeWithAdapter c task adapter options).on w =
        (r, { w with calls := w.calls ++ calls }) := by
  have hcalled : ∀ {α : Type} (o : Option (Except Thrown AdapterResult)) (f : Unit → Method α),
      Prog.on (called o >>= f) w = (f ()).on { w with calls := w.calls ++ [o] } :=
    fun _ _ => rfl
  unfold executeWithAdapter
  rw [hcalled]
  cases hfirst : executeWithTimeout (adapter.execute 0) (timeoutOf options task) with
  | ok r => exact ⟨_, _, .answered hfirst, rfl⟩
  | error e =>
    cases hretry : options.retryOnFailure with
    | false =>
      have honce : options.retryOnFailure = true → isRetryableError c e = .ok true := by
        simp [hretry]
      exact ⟨_, _, .givenUp hfirst honce, on_failedWith⟩
    | true =>
      simp only [if_true]
      cases hclass : isRetryableError c e with
      | error e' => exact ⟨_, _, .confused hfirst hretry hclass, rfl⟩
      | ok retryable =>
        cases retryable with
        | true => exact ⟨_, _, .givenUp hfirst fun _ => hclass, on_failedWith⟩
        | false =>
          cases hsecond : (adapter.execute 1).settlesAfter with
          | none =>
            refine ⟨_, _, .hung hfirst hretry hclass hsecond, (on_retry_hangs hsecond).trans ?_⟩
            simp
          | some ms =>
            refine ⟨_, _, .retried hfirst hretry hclass hsecond,
              (on_retry_settled hsecond).trans ?_⟩
            simp

end Adapter

/-! ## The second call -/

/-- The adapter is called a second time if that is wanted and the error is one of those that are not
to be retried; so the rule holds only where no retry is wanted. -/
theorem second_call_iff (c : Circumstances) (task : TaskEntity) (adapter : AIAdapter)
    (options : Options) (w : World) (error : Thrown)
    (hfirst : executeWithTimeout (adapter.execute 0) (timeoutOf options task) = .error error) :
    ∃ calls, ((executeWithAdapter c task adapter options).on w).2.calls = w.calls ++ calls ∧
      calls.length ≤ 2 ∧
      (calls.length = 2 ↔ options.retryOnFailure = true ∧ Mentions c error) ∧
      ((calls.length = 2 ↔ options.retryOnFailure = true ∧ ¬ Mentions c error) ↔
        options.retryOnFailure = false) := by
  obtain ⟨r, calls, hcourse, hexec⟩ := on_executeWithAdapter c task adapter options w
  have hlength : calls.length ≤ 2 ∧
      (calls.length = 2 ↔ options.retryOnFailure = true ∧ Mentions c error) := by
    rw [← isRetryableError_eq_false]
    cases hcourse with
    | answered first => cases hfirst.symm.trans first
    | givenUp first once =>
      cases hfirst.symm.trans first
      refine ⟨by simp, iff_of_false (by simp) ?_⟩
      rintro ⟨hwanted, hphrase⟩
      cases (once hwanted).symm.trans hphrase
    | confused first wanted unclear =>
      cases hfirst.symm.trans first
      refine ⟨by simp, iff_of_false (by simp) ?_⟩
      rintro ⟨-, hphrase⟩
      cases unclear.symm.trans hphrase
    | hung first wanted phrase second =>
      cases hfirst.symm.trans first
      exact ⟨by simp, iff_of_true rfl ⟨wanted, phrase⟩⟩
    | retried first wanted phrase second =>
      cases hfirst.symm.trans first
      exact ⟨by simp, iff_of_true rfl ⟨wanted, phrase⟩⟩
  refine ⟨calls, by rw [hexec], hlength.1, hlength.2, ?_⟩
  rw [hlength.2]
  cases options.retryOnFailure with
  | false | true => simp

def calm : Circumstances where
  copies := false
  lowerCase := .plain
  findById := .ok ()
  saveStarted := .ok
  emitStarted := .ok ()
  route := .ok .claude
  registry _ := none
  saveResult := .ok ()
  saveEnded := .ok
  validate _ _ := .ok 1
  emitCompleted := .ok ()
  findAgain := .ok ()
  saveFailed := .ok
  emitFailed := .ok ()
  stamp := ⟨ofString "result_0_a", 0⟩
  executionTime := 3
  startedAt := (1, 1)
  endedAt := (2, 2)
  failedAt := (3, 3)

def failing (error : Thrown) : AIAdapter := ⟨.claude, fun _ => ⟨some 1, .error error⟩⟩

theorem tasks_one_keyed (id : TaskId) (t : TaskEntity)
    (h : (if id = TaskEntity.freshProps.id then some (TaskEntity.new TaskEntity.freshProps) else
      none) = some t) : t.props.id = id := by
  split at h
  · cases h
    exact (‹id = _›).symm
  · cases h

def fresh : TaskEntity := .new TaskEntity.freshProps

def World.fresh : World where
  tasks := ⟨fun id => if id = TaskEntity.freshProps.id then some Execution.fresh else none,
    tasks_one_keyed⟩
  results := []
  calls := []
  events := []

theorem second_call_iff_rateLimit : ∃ calls,
    ((executeWithAdapter calm fresh (failing (.error "Rate limit exceeded"))
      { retryOnFailure := true }).on .fresh).2.calls = [] ++ calls ∧ calls.length = 2 := by
  obtain ⟨calls, hcalls, -, hsecond, -⟩ := second_call_iff calm fresh
    (failing (.error "Rate limit exceeded")) { retryOnFailure := true } .fresh
    (.error "Rate limit exceeded") rfl
  refine ⟨calls, hcalls, hsecond.mpr ⟨rfl, _, none, rfl, "Rate limit exceeded", ?_, ?_⟩⟩
  · decide
  · decide +kernel

theorem retryable_not_retried : isRetryableError calm (.error "socket hang up") = .ok true ∧
    ((executeWithAdapter calm fresh (failing (.error "socket hang up"))
      { retryOnFailure := true }).on .fresh).2.calls =
        [some (.error (.error "socket hang up"))] := by
  constructor
  · decide +kernel
  · decide +kernel

end Bridge.UseCases.Execution
