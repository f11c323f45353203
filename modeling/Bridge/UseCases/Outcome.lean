import Bridge.UseCases.Execution

/-!
# How an execution ends, and what the events say of it

`execute` has one `catch` block for all it does. By the time there is a result the task has been
started and is stored so; then it is moved to the status the result stands for, and three things may
still reject: the `save`, the validator and the event of the end. The `catch` block leaves a task
that is not `IN_PROGRESS` as it is, says `task:failed`, and throws, whatever the task has become.
-/

namespace Bridge.UseCases.Execution

open Lib Utf16 Domain Prog List

variable {c : Circumstances} {w w' : World} {id : TaskId} {task : TaskEntity} {st : TaskStatus}
  {readings : Nat × Nat}

/-! ## Up to the result -/

/-- What can have happened before there is a result: the task has been started, or not. -/
structure Underway (id : TaskId) (command : ExecuteTaskCommand) (w w' : World) : Prop where
  status : w'.tasks.status id = w.tasks.status id ∨ w'.tasks.status id = some .inProgress
  events : w'.events = w.events ∨ ∃ st, w'.events = w.events ++ [(.started command.taskId, st)]

theorem Underway.refl {command : ExecuteTaskCommand} : Underway id command w w :=
  ⟨.inl rfl, .inl rfl⟩

structure Started (id : TaskId) (command : ExecuteTaskCommand) (task : TaskEntity) (w w' : World) :
    Prop where
  task_id : task.props.id = id
  task_status : task.props.status = .inProgress
  stored : w'.tasks.status id = some .inProgress
  events : ∃ st, w'.events = w.events ++ [(.started command.taskId, st)]
  results : w'.results = w.results
  calls : w'.calls = w.calls

section Start

variable {command : ExecuteTaskCommand}

theorem shown_status (hid : task.props.id = id) : (shown c task w).tasks.status id =
    if c.copies then w.tasks.status id else some task.props.status := by
  subst hid
  unfold shown
  cases c.copies
  · exact Tasks.status_save _ _
  · rfl

@[simp] theorem shown_events : (shown c task w).events = w.events := by
  unfold shown
  split <;> rfl

@[simp] theorem shown_results : (shown c task w).results = w.results := by
  unfold shown
  split <;> rfl

@[simp] theorem shown_calls : (shown c task w).calls = w.calls := by
  unfold shown
  split <;> rfl

theorem underway_shown (hid : task.props.id = id) (hst : task.props.status = .inProgress) :
    Underway id command w (shown c task w) := by
  refine ⟨?_, .inl shown_events⟩
  rw [shown_status hid, hst]
  cases c.copies
  · exact .inr rfl
  · exact .inl rfl

theorem startTask_spec (c : Circumstances) (command : ExecuteTaskCommand) (id : TaskId)
    (w : World) :
    (∃ e w', (startTask c command id).on w = (.error (.threw e), w') ∧ Underway id command w w') ∨
    ∃ task w', (startTask c command id).on w = (.ok task, w') ∧ Started id command task w w' := by
  unfold startTask
  cases hfind : c.findById with
  | error e => exact .inl ⟨_, _, on_bind_error on_findTask_error, .refl⟩
  | ok u =>
    rw [on_bind_ok on_findTask_ok]
    cases htask : w.tasks.find id with
    | none => exact .inl ⟨_, _, rfl, .refl⟩
    | some task =>
      cases hcan : task.canTransitionTo .inProgress with
      | false =>
        simp only [hcan, Bool.not_false, if_true]
        exact .inl ⟨_, _, rfl, .refl⟩
      | true =>
        have hid : (moved task .inProgress c.startedAt).props.id = id :=
          (moved_id hcan).trans (w.tasks.keyed id task htask)
        have hst : (moved task .inProgress c.startedAt).props.status = .inProgress :=
          moved_status hcan
        simp only [hcan, Bool.not_true, Bool.false_eq_true, if_false]
        rw [on_bind_ok (on_updateStatus hcan)]
        generalize moved task .inProgress c.startedAt = task at hid hst
        cases hsave : c.saveStarted with
        | rejected e stored =>
          rw [on_bind_error on_saveTask_rejected]
          refine .inl ⟨_, _, rfl, ?_⟩
          cases stored with
          | false => exact underway_shown hid hst
          | true =>
            refine ⟨.inr ?_, .inl shown_events⟩
            rw [← hst, ← hid]
            exact Tasks.status_save _ _
        | ok =>
          rw [on_bind_ok on_saveTask_ok]
          have hstored : ((shown c task w).tasks.save task).status id = some .inProgress := by
            rw [← hst, ← hid]
            exact Tasks.status_save _ _
          cases hemit : c.emitStarted with
          | error e =>
            refine .inl ⟨_, _, rfl, .inr hstored, .inr ⟨some .inProgress, ?_⟩⟩
            simp [hstored]
          | ok u =>
            refine .inr ⟨_, _, rfl, hid, hst, hstored, ⟨some .inProgress, ?_⟩, ?_, ?_⟩
            · simp [hstored]
            · simp
            · simp

end Start

/-- There is a result, made of the last outcome and saved. -/
structure Obtained (c : Circumstances) (id : TaskId) (command : ExecuteTaskCommand)
    (task : TaskEntity) (result : ResultEntity) (w w' : World) : Prop where
  task_id : task.props.id = id
  task_status : task.props.status = .inProgress
  stored : w'.tasks.status id = some .inProgress
  events : ∃ st, w'.events = w.events ++ [(.started command.taskId, st)]
  results : w'.results = w.results ++ [result]
  calls : ∃ adapter calls, Course c task adapter command.options (.ok result) calls ∧
    w'.calls = w.calls ++ calls

section Late

variable (c : Circumstances) (command : ExecuteTaskCommand)

theorem obtainResult_spec (id : TaskId) (w : World) :
    (∃ halt w', (obtainResult c command id).on w = (.error halt, w') ∧ Underway id command w w') ∨
    ∃ task result w', (obtainResult c command id).on w = (.ok (task, result), w') ∧
      Obtained c id command task result w w' := by
  unfold obtainResult
  obtain ⟨e, w₁, hstart, hunder⟩ | ⟨task, w₁, hstart, hstarted⟩ := startTask_spec c command id w
  · exact .inl ⟨_, _, on_bind_error hstart, hunder⟩
  · have hunder : Underway id command w w₁ := ⟨.inr hstarted.stored, .inr hstarted.events⟩
    rw [on_bind_ok hstart]
    cases hselect : selectAdapter c command.options with
    | error e => exact .inl ⟨_, _, rfl, hunder⟩
    | ok adapter =>
      rw [on_bind_ok on_await_ok]
      obtain ⟨r, calls, hcourse, hexec⟩ := on_executeWithAdapter c task adapter command.options w₁
      cases r with
      | error halt =>
        rw [on_bind_error hexec]
        exact .inl ⟨_, _, rfl, hunder.status, hunder.events⟩
      | ok result =>
        rw [on_bind_ok hexec]
        cases hsave : c.saveResult with
        | error e => exact .inl ⟨_, _, rfl, hunder.status, hunder.events⟩
        | ok u =>
          refine .inr ⟨task, result, _, rfl, hstarted.task_id, hstarted.task_status,
            hstarted.stored, hstarted.events, ?_, adapter, calls, hcourse, ?_⟩
          · exact congrArg (· ++ [result]) hstarted.results
          · exact congrArg (· ++ calls) hstarted.calls

/-! ## After the result -/

def finalStatus (result : ResultEntity) : TaskStatus :=
  if result.isSuccess then .completed else .failed

/-- The validator rejects the task with its final status, or the event bus the event of the end. -/
def Objection (task : TaskEntity) (result : ResultEntity) : Prop :=
  ((command.options.validateResult && result.isSuccess) = true ∧
    ∃ e, c.validate result (moved task (finalStatus result) c.endedAt) = .error e) ∨
  ∃ e, c.emitCompleted = .error e

/-- Something rejects when the task is stored with its final status already. -/
def LateFailure (task : TaskEntity) (result : ResultEntity) : Prop :=
  (∃ e stored, c.saveEnded = .rejected e stored ∧ (stored = true ∨ c.copies = false)) ∨
    c.saveEnded = .ok ∧ Objection c command task result

end Late

structure Ended (id : TaskId) (command : ExecuteTaskCommand) (result : ResultEntity)
    (w w' : World) : Prop where
  stored : w'.tasks.status id = some (finalStatus result)
  events : w'.events = w.events ∨ w'.events = w.events ++
    [(.completed command.taskId result.id result.adapter result.isSuccess,
      some (finalStatus result))]
  results : w'.results = w.results
  calls : w'.calls = w.calls

section Finish

variable {command : ExecuteTaskCommand} {result : ResultEntity}

theorem ended_shown (hid : task.props.id = id) (hst : task.props.status = finalStatus result)
    (hcopies : c.copies = false) : Ended id command result w (shown c task w) := by
  refine ⟨?_, .inl shown_events, shown_results, shown_calls⟩
  rw [shown_status hid, hcopies, hst]
  rfl

theorem ended_saved (hid : task.props.id = id) (hst : task.props.status = finalStatus result) :
    Ended id command result w
      { shown c task w with tasks := (shown c task w).tasks.save task } := by
  refine ⟨?_, .inl shown_events, shown_results, shown_calls⟩
  rw [← hst, ← hid]
  exact Tasks.status_save _ _

def announced (command : ExecuteTaskCommand) (id : TaskId) (result : ResultEntity)
    (w : World) : World :=
  { w with events := w.events ++
      [(.completed command.taskId result.id result.adapter result.isSuccess, w.tasks.status id)] }

theorem Ended.announced (h : Ended id command result w w') (hevents : w'.events = w.events) :
    Ended id command result w (announced command id result w') := by
  refine ⟨h.stored, .inr ?_, h.results, h.calls⟩
  rw [Execution.announced, hevents, h.stored]

theorem conclude_error (id : TaskId) (w : World) (h : Objection c command task result) : ∃ e w',
      (conclude c command id (moved task (finalStatus result) c.endedAt) result).on w =
        (.error (.threw e), w') ∧ (w' = w ∨ w' = announced command id result w) := by
  unfold Objection at h
  unfold conclude
  cases hwanted : command.options.validateResult && result.isSuccess with
  | false =>
    simp only [hwanted, Bool.false_eq_true, false_and, false_or] at h
    obtain ⟨e, hemit⟩ := h
    rw [hemit]
    exact ⟨e, _, rfl, .inr rfl⟩
  | true =>
    simp only [hwanted, true_and] at h
    cases hvalidate : c.validate result (moved task (finalStatus result) c.endedAt) with
    | error e => exact ⟨e, w, rfl, .inl rfl⟩
    | ok score =>
      simp only [hvalidate, reduceCtorEq, exists_false, false_or] at h
      obtain ⟨e, hemit⟩ := h
      rw [hemit]
      exact ⟨e, _, rfl, .inr rfl⟩

theorem conclude_ok (id : TaskId) (w : World) (h : ¬ Objection c command task result) : ∃ score,
    (conclude c command id (moved task (finalStatus result) c.endedAt) result).on w =
      (.ok (answerOf command result score), announced command id result w) := by
  unfold Objection at h
  push Not at h
  obtain ⟨hvalid, hemit⟩ := h
  unfold conclude
  cases hbus : c.emitCompleted with
  | error e => exact absurd hbus (hemit e)
  | ok u =>
    cases hwanted : command.options.validateResult && result.isSuccess with
    | false => exact ⟨none, rfl⟩
    | true =>
      cases hvalidate : c.validate result (moved task (finalStatus result) c.endedAt) with
      | error e => exact absurd hvalidate (hvalid hwanted e)
      | ok score => exact ⟨some score, rfl⟩

theorem finish_moved (hst : task.props.status = .inProgress) :
    (finish c command id task result).on w = Prog.on (do
        saveTask (moved task (finalStatus result) c.endedAt) c.saveEnded
        conclude c command id (moved task (finalStatus result) c.endedAt) result)
        (shown c (moved task (finalStatus result) c.endedAt) w) :=
  on_bind_ok (on_updateStatus (canTransitionTo_end result.isSuccess hst))

section Spec

variable (hid : task.props.id = id) (hst : task.props.status = .inProgress)
include hid hst

theorem moved_final (c : Circumstances) (result : ResultEntity) :
    (moved task (finalStatus result) c.endedAt).props.id = id ∧
    (moved task (finalStatus result) c.endedAt).props.status = finalStatus result :=
  ⟨(moved_id (canTransitionTo_end result.isSuccess hst)).trans hid,
    moved_status (canTransitionTo_end result.isSuccess hst)⟩

theorem finish_late (h : LateFailure c command task result) : ∃ e w',
    (finish c command id task result).on w = (.error (.threw e), w') ∧
      Ended id command result w w' := by
  obtain ⟨hid', hst'⟩ := moved_final hid hst c result
  rw [finish_moved hst]
  obtain ⟨e, stored, hsave, hstored⟩ | ⟨hsave, hobjection⟩ := h
  · rw [hsave, on_bind_error on_saveTask_rejected]
    refine ⟨e, _, rfl, ?_⟩
    cases stored with
    | true => exact ended_saved hid' hst'
    | false => exact ended_shown hid' hst' (by simpa using hstored)
  · obtain ⟨e, w', hconclude, rfl | rfl⟩ := conclude_error id _ hobjection
    · rw [hsave, on_bind_ok on_saveTask_ok]
      exact ⟨e, _, hconclude, ended_saved hid' hst'⟩
    · rw [hsave, on_bind_ok on_saveTask_ok]
      exact ⟨e, _, hconclude, (ended_saved hid' hst').announced shown_events⟩

theorem finish_not_late (h : ¬ LateFailure c command task result) :
    (∃ score w', (finish c command id task result).on w =
      (.ok (answerOf command result score), w') ∧ Ended id command result w w') ∨
    ∃ e, (finish c command id task result).on w = (.error (.threw e), w) := by
  obtain ⟨hid', hst'⟩ := moved_final hid hst c result
  rw [finish_moved hst]
  unfold LateFailure at h
  push Not at h
  cases hsave : c.saveEnded with
  | ok =>
    obtain ⟨score, hconclude⟩ := conclude_ok id _ (h.2 hsave)
    rw [on_bind_ok on_saveTask_ok]
    exact .inl ⟨score, _, hconclude, (ended_saved hid' hst').announced shown_events⟩
  | rejected e stored =>
    obtain ⟨hstored, hcopies⟩ := h.1 e stored hsave
    rw [on_bind_error on_saveTask_rejected]
    refine .inr ⟨e, ?_⟩
    simp only [Bool.not_eq_true] at hstored
    simp only [Bool.not_eq_false] at hcopies
    simp [hstored, shown, hcopies]

end Spec

end Finish

structure Failed (id : TaskId) (w w' : World) : Prop where
  events : w'.events = w.events
  status : w'.tasks.status id = w.tasks.status id ∨ w.tasks.status id = some .inProgress ∧
    (w'.tasks.status id = some .inProgress ∨ w'.tasks.status id = some .failed)

theorem Failed.refl : Failed id w w := ⟨rfl, .inl rfl⟩

theorem failStarted_spec (c : Circumstances) (htask : w.tasks.find id = some task) : ∃ w',
    (attempt (failStarted c task) fun _ => return).on w = (.ok (), w') ∧ Failed id w w' := by
  unfold failStarted
  by_cases hst : task.props.status = .inProgress
  · have hcan : task.canTransitionTo .failed = true := canTransitionTo_end false hst
    have hid : (moved task .failed c.failedAt).props.id = id :=
      (moved_id hcan).trans (w.tasks.keyed id task htask)
    have hmoved : (moved task .failed c.failedAt).props.status = .failed := moved_status hcan
    have hstatus : w.tasks.status id = some .inProgress := by
      rw [Tasks.status, htask, ← hst]
      rfl
    rw [if_pos hst]
    have hbody : Prog.on (updateStatus c task .failed c.failedAt >>= fun task =>
        saveTask task c.saveFailed) w =
      (saveTask (moved task .failed c.failedAt) c.saveFailed).on
        (shown c (moved task .failed c.failedAt) w) := on_bind_ok (on_updateStatus hcan)
    generalize moved task .failed c.failedAt = task at hid hmoved hbody
    have hsaved : ((shown c task w).tasks.save task).status id = some .failed := by
      rw [← hmoved, ← hid]
      exact Tasks.status_save _ _
    cases hsave : c.saveFailed with
    | ok =>
      rw [hsave, on_saveTask_ok] at hbody
      exact ⟨_, on_attempt_ok hbody, shown_events, .inr ⟨hstatus, .inr hsaved⟩⟩
    | rejected e stored =>
      rw [hsave, on_saveTask_rejected] at hbody
      refine ⟨_, on_attempt_threw hbody, ?_⟩
      cases stored with
      | true => exact ⟨shown_events, .inr ⟨hstatus, .inr hsaved⟩⟩
      | false =>
        refine ⟨shown_events, .inr ⟨hstatus, ?_⟩⟩
        show (shown c task w).tasks.status id = _ ∨ (shown c task w).tasks.status id = _
        rw [shown_status hid, hmoved, hstatus]
        cases c.copies
        · exact .inr rfl
        · exact .inl rfl
  · rw [if_neg hst]
    exact ⟨w, rfl, .refl⟩

theorem failTask_spec (c : Circumstances) (id : TaskId) (w : World) : ∃ w',
    (attempt (failTask c id) fun _ => return).on w = (.ok (), w') ∧ Failed id w w' := by
  unfold failTask
  cases hfind : c.findAgain with
  | error e => exact ⟨w, on_attempt_threw (on_bind_error on_findTask_error), .refl⟩
  | ok u =>
    cases htask : w.tasks.find id with
    | none =>
      refine ⟨w, on_attempt_ok ?_, .refl⟩
      rw [on_bind_ok on_findTask_ok, htask]
      rfl
    | some task =>
      obtain ⟨w', hstarted, hfailed⟩ := failStarted_spec c htask
      refine ⟨w', ?_, hfailed⟩
      rw [← hstarted]
      apply on_attempt_congr
      rw [on_bind_ok on_findTask_ok, htask]

theorem recover_spec (c : Circumstances) (command : ExecuteTaskCommand) (id : TaskId)
    (error : Thrown)
    (w : World) : ∃ e w', (recover c command id error).on w = (.error (.threw e), w') ∧
      (w'.events = w.events ∨ ∃ message,
        w'.events = w.events ++ [(.failed command.taskId message, w'.tasks.status id)]) ∧
      (w'.tasks.status id = w.tasks.status id ∨ w.tasks.status id = some .inProgress ∧
        (w'.tasks.status id = some .inProgress ∨ w'.tasks.status id = some .failed)) := by
  obtain ⟨w₁, hfail, hevents, hstatus⟩ := failTask_spec c id w
  unfold recover
  rw [on_bind_ok hfail]
  cases error with
  | nullish => exact ⟨_, w₁, rfl, .inl hevents, hstatus⟩
  | value message status =>
    rw [← hevents]
    cases hemit : c.emitFailed with
    | error | ok => exact ⟨_, _, rfl, .inr ⟨message, rfl⟩, hstatus⟩

/-! ## A call that returns -/

def stored (command : ExecuteTaskCommand) (w : World) : Option TaskStatus :=
  (TaskId.fromString command.taskId).toOption.bind w.tasks.status

variable {result : ResultEntity}

section Returned

variable {command : ExecuteTaskCommand} {answer : ExecuteTaskResult}

theorem recover_not_ok {error : Thrown} : (recover c command id error).on w ≠ (.ok answer, w') := by
  obtain ⟨e, w₁, hrecover, -⟩ := recover_spec c command id error w
  rw [hrecover]
  intro h
  cases h

theorem execute_returned (h : (execute c command).on w = (.ok answer, w')) :
    ∃ id task result w₁ score, TaskId.fromString command.taskId = .ok id ∧
      Obtained c id command task result w w₁ ∧ answer = answerOf command result score ∧
      Ended id command result w₁ w' := by
  unfold execute at h
  cases hid : TaskId.fromString command.taskId with
  | error message =>
    simp [hid] at h
  | ok id =>
    simp only [hid] at h
    obtain ⟨halt, w₁, hobtain, -⟩ | ⟨task, result, w₁, hobtain, hresult⟩ :=
      obtainResult_spec c command id w
    · cases halt with
      | threw e =>
        rw [on_attempt_threw (on_bind_error hobtain)] at h
        exact absurd h recover_not_ok
      | hangs =>
        simp [on_attempt_hangs (on_bind_error hobtain)] at h
    · by_cases hlate : LateFailure c command task result
      · obtain ⟨e, w₂, hfinish, -⟩ :=
          finish_late (w := w₁) hresult.task_id hresult.task_status hlate
        rw [on_attempt_threw ((on_bind_ok hobtain).trans hfinish)] at h
        exact absurd h recover_not_ok
      · obtain ⟨score, w₂, hfinish, hended⟩ | ⟨e, hfinish⟩ :=
          finish_not_late (w := w₁) hresult.task_id hresult.task_status hlate
        · rw [on_attempt_ok ((on_bind_ok hobtain).trans hfinish)] at h
          cases h
          exact ⟨id, task, result, w₁, score, rfl, hresult, rfl, hended⟩
        · rw [on_attempt_threw ((on_bind_ok hobtain).trans hfinish)] at h
          exact absurd h recover_not_ok

theorem Course.last {adapter : AIAdapter} {options : Options}
    {calls : List (Option (Except Thrown AdapterResult))}
    (h : Course c task adapter options (.ok result) calls) : ∃ before outcome,
      calls = before ++ [some outcome] ∧
      ((∃ r, outcome = .ok r ∧ result.isSuccess = true) ∨
        ∃ message status, outcome = .error (.value message status) ∧
          result.isSuccess = !message.truthy) := by
  have hreport : ∀ (k : AdapterResult → Option Rat) (outcome : Except Thrown AdapterResult),
      reportOf c task adapter k outcome = .ok result →
      (∃ r, outcome = .ok r ∧ result.isSuccess = true) ∨
        ∃ message status, outcome = .error (.value message status) ∧
          result.isSuccess = !message.truthy := by
    intro k outcome hreport
    rcases outcome with (_ | ⟨message, status⟩) | r
    · cases hreport
    · cases hreport
      exact .inr ⟨message, status, rfl, rfl⟩
    · cases hreport
      exact .inl ⟨r, rfl, rfl⟩
  generalize hr : Except.ok result = r at h
  cases h with
  | answered | givenUp => exact ⟨[], _, rfl, hreport _ _ hr.symm⟩
  | confused | hung => cases hr
  | retried first wanted phrase second => exact ⟨[_], _, rfl, hreport _ _ hr.symm⟩

end Returned

/-- The result, the stored task and the answer agree on how it went. -/
structure Reports (command : ExecuteTaskCommand) (answer : ExecuteTaskResult) (w : World)
    (result : ResultEntity) (success : Bool) : Prop where
  result : result.isSuccess = success
  stored : stored command w = some (if success then .completed else .failed)
  status : answer.status = if success then .success else .failure

/-- An execution that returns reports the last outcome as it was, but for one case: an error whose
message is not true as a condition is reported as a success. -/
theorem outcome_reported (c : Circumstances) (command : ExecuteTaskCommand)
    (answer : ExecuteTaskResult) (w w' : World) (h : (execute c command).on w = (.ok answer, w')) :
    ∃ result outcome, w'.results = w.results ++ [result] ∧ w'.calls.getLast? = some (some outcome) ∧
      (∀ r, outcome = .ok r → Reports command answer w' result true) ∧
      ∀ error, outcome = .error error →
        (Reports command answer w' result false ↔ ∃ message, error.message = .ok message ∧
          message.truthy = true) ∧
        (Reports command answer w' result true ↔ ∃ message, error.message = .ok message ∧
          message.truthy = false) := by
  obtain ⟨id, task, result, w₁, score, hid, hobtained, rfl, hended⟩ := execute_returned h
  obtain ⟨adapter, calls, hcourse, hcalls⟩ := hobtained.calls
  obtain ⟨before, outcome, rfl, htold⟩ := hcourse.last
  have hreports : ∀ success, result.isSuccess = success →
      Reports command (answerOf command result score) w' result success := by
    rintro success rfl
    refine ⟨rfl, ?_, rfl⟩
    rw [stored, hid]
    exact hended.stored
  refine ⟨result, outcome, ?_, ?_, ?_, ?_⟩
  · rw [hended.results, hobtained.results]
  · rw [hended.calls, hcalls, ← append_assoc, getLast?_concat]
  · rintro r rfl
    obtain ⟨-, -, hsuccess⟩ | ⟨message, status, herror, -⟩ := htold
    · exact hreports true hsuccess
    · cases herror
  · rintro error rfl
    obtain ⟨r, hok, -⟩ | ⟨message, status, herror, hsuccess⟩ := htold
    · cases hok
    · cases herror
      constructor
      · constructor
        · intro hfailure
          exact ⟨message, rfl, by simpa [hsuccess] using hfailure.result⟩
        · rintro ⟨message', hmessage, htrue⟩
          cases hmessage
          exact hreports false (by rw [hsuccess, htrue]; rfl)
      · constructor
        · intro hreported
          exact ⟨message, rfl, by simpa [hsuccess] using hreported.result⟩
        · rintro ⟨message', hmessage, hfalse⟩
          cases hmessage
          exact hreports true (by rw [hsuccess, hfalse]; rfl)

/-- An adapter that throws an `Error` without a text: the task is completed. -/
def silentFailure : Circumstances := { calm with registry _ := some (failing (.error "")) }

def runFresh : ExecuteTaskCommand := { taskId := TaskEntity.freshProps.id.value }

def loudFailure : Circumstances := { calm with registry _ := some (failing (.error "boom")) }

theorem outcome_reported_boom : ∃ answer result,
    ((execute loudFailure runFresh).on .fresh).1 = .ok answer ∧
    Reports runFresh answer ((execute loudFailure runFresh).on .fresh).2 result false := by
  obtain ⟨answer, hanswer⟩ : ∃ answer, ((execute loudFailure runFresh).on .fresh).1 = .ok answer :=
    ⟨_, rfl⟩
  have hcalls : ((execute loudFailure runFresh).on .fresh).2.calls =
      [some (.error (.error "boom"))] := rfl
  obtain ⟨result, outcome, -, hlast, -, herror⟩ :=
    outcome_reported loudFailure runFresh answer .fresh _ (Prod.ext hanswer rfl)
  rw [hcalls] at hlast
  cases hlast
  exact ⟨answer, result, hanswer, (herror _ rfl).1.mpr ⟨_, rfl, by decide⟩⟩

theorem silent_failure_completes : ∃ answer,
    ((execute silentFailure runFresh).on .fresh).1 = .ok answer ∧ answer.status = .success ∧
    ((execute silentFailure runFresh).on .fresh).2.calls = [some (.error (.error ""))] ∧
    stored runFresh ((execute silentFailure runFresh).on .fresh).2 = some .completed :=
  ⟨_, rfl, rfl, rfl, rfl⟩

/-! ## Events and the stored task -/

def Event.Fits : Event → Option TaskStatus → Prop
  | .started _, _ => True
  | .completed _ _ _ success, st => st = some (if success then .completed else .failed)
  | .failed _ _, st => st ≠ some .completed

/-- The events that have come to the bus between two moments fit the task as it was stored then. -/
def Fitting (w w' : World) : Prop := ∃ new, w'.events = w.events ++ new ∧ ∀ p ∈ new, p.1.Fits p.2

/-- Every event of the call fits the task as it was stored then, and if the call rejects, the task
it leaves is not completed. -/
structure Agrees (c : Circumstances) (command : ExecuteTaskCommand) (w : World) : Prop where
  events : Fitting w ((execute c command).on w).2
  rejects : ∀ e, ((execute c command).on w).1 = .error (.threw e) →
    stored command ((execute c command).on w).2 ≠ some .completed

/-- The call has come to a result of success, and something rejects when the task is completed. -/
def Late (c : Circumstances) (command : ExecuteTaskCommand) (w : World) : Prop :=
  ∃ id task result w', TaskId.fromString command.taskId = .ok id ∧
    (obtainResult c command id).on w = (.ok (task, result), w') ∧
    result.isSuccess = true ∧ LateFailure c command task result

section Agrees

variable {command : ExecuteTaskCommand}

theorem stored_of_ok (hid : TaskId.fromString command.taskId = .ok id) :
    stored command w = w.tasks.status id := by
  rw [stored, hid]
  rfl

theorem Fitting.refl : Fitting w w := ⟨[], (append_nil _).symm, by simp⟩

variable {w₁ : World}

theorem Fitting.concat (h : Fitting w w₁) {event : Event} {st : Option TaskStatus}
    (hevents : w'.events = w₁.events ++ [(event, st)]) (hfits : event.Fits st) : Fitting w w' := by
  obtain ⟨new, hnew, hold⟩ := h
  refine ⟨new ++ [(event, st)], by rw [hevents, hnew, append_assoc], ?_⟩
  intro p hp
  obtain hp | hp := mem_append.mp hp
  · exact hold p hp
  · rw [mem_singleton.mp hp]
    exact hfits

theorem Fitting.same (h : Fitting w w₁) (hevents : w'.events = w₁.events) : Fitting w w' := by
  obtain ⟨new, hnew, hold⟩ := h
  exact ⟨new, hevents.trans hnew, hold⟩

theorem Underway.fitting (h : Underway id command w w') : Fitting w w' := by
  obtain h | ⟨st, h⟩ := h.events
  · exact Fitting.refl.same h
  · exact Fitting.refl.concat h trivial

theorem Obtained.fitting (h : Obtained c id command task result w w') : Fitting w w' := by
  obtain ⟨st, h⟩ := h.events
  exact Fitting.refl.concat h trivial

theorem Ended.fitting (hbefore : Fitting w w₁)
    (h : Ended id command result w₁ w') : Fitting w w' := by
  obtain h | h := h.events
  · exact hbefore.same h
  · exact hbefore.concat h rfl

theorem agrees_of_recover {error : Thrown} (hid : TaskId.fromString command.taskId = .ok id)
    (h : (execute c command).on w = (recover c command id error).on w')
    (hfitting : Fitting w w') : Agrees c command w ↔ w'.tasks.status id ≠ some .completed := by
  obtain ⟨e, w₁, hrecover, hlast, hstatus⟩ := recover_spec c command id error w'
  have hsame : w₁.tasks.status id = some .completed ↔ w'.tasks.status id = some .completed := by
    obtain hstatus | ⟨hbefore, hafter | hafter⟩ := hstatus
    · rw [hstatus]
    · simp [hbefore, hafter]
    · simp [hbefore, hafter]
  rw [hrecover] at h
  rw [ne_eq, ← hsame]
  constructor
  · intro hagrees
    have hrejects := hagrees.rejects e (by rw [h])
    rwa [h, stored_of_ok hid] at hrejects
  · intro hnot
    refine ⟨?_, fun _ _ => by rwa [h, stored_of_ok hid]⟩
    rw [h]
    obtain hlast | ⟨message, hlast⟩ := hlast
    · exact hfitting.same hlast
    · exact hfitting.concat hlast hnot

theorem agrees_of_not_threw {r : Except Halt ExecuteTaskResult}
    (h : (execute c command).on w = (r, w')) (hr : ∀ e, r ≠ .error (.threw e))
    (hfitting : Fitting w w') : Agrees c command w := by
  refine ⟨by rwa [h], fun e he => ?_⟩
  rw [h] at he
  exact absurd he (hr e)

theorem Underway.not_completed (h : Underway id command w w')
    (hnot : w.tasks.status id ≠ some .completed) : w'.tasks.status id ≠ some .completed := by
  obtain h | h := h.status
  · rwa [h]
  · simp [h]

theorem startTask_completed (c : Circumstances) (command : ExecuteTaskCommand)
    (h : w.tasks.status id = some .completed) :
    ∃ e, (startTask c command id).on w = (.error (.threw e), w) := by
  obtain ⟨task, htask, hst⟩ := Option.map_eq_some_iff.mp h
  have hcan : task.canTransitionTo .inProgress = false := by
    simp [TaskEntity.canTransitionTo, hst, TaskStatus.allowed]
  unfold startTask
  cases hfind : c.findById with
  | error e => exact ⟨e, on_bind_error on_findTask_error⟩
  | ok u =>
    rw [on_bind_ok on_findTask_ok, htask]
    simp only [hcan, Bool.not_false, if_true]
    exact ⟨_, rfl⟩

theorem obtainResult_completed (c : Circumstances) (command : ExecuteTaskCommand)
    (h : w.tasks.status id = some .completed) :
    ∃ e, (obtainResult c command id).on w = (.error (.threw e), w) := by
  obtain ⟨e, hstart⟩ := startTask_completed c command h
  exact ⟨e, on_bind_error hstart⟩

section ValidId

variable (hid : TaskId.fromString command.taskId = .ok id)
include hid

theorem execute_eq : execute c command = attempt
    (obtainResult c command id >>= fun x => finish c command id x.1 x.2)
      (recover c command id) := by
  simp [execute, hid]

theorem agrees_of_underway {halt : Halt} (hobtain : (obtainResult c command id).on w =
    (.error halt, w')) (h : Underway id command w w') :
    Agrees c command w ↔ w.tasks.status id ≠ some .completed := by
  by_cases hcompleted : w.tasks.status id = some .completed
  · obtain ⟨e, hcompleted⟩ := obtainResult_completed c command hcompleted
    have hexec : (execute c command).on w = (recover c command id e).on w := by
      rw [execute_eq hid, on_attempt_threw (on_bind_error hcompleted)]
    exact agrees_of_recover hid hexec .refl
  · refine iff_of_true ?_ hcompleted
    cases halt with
    | threw e =>
      have hexec : (execute c command).on w = (recover c command id e).on w' := by
        rw [execute_eq hid, on_attempt_threw (on_bind_error hobtain)]
      exact (agrees_of_recover hid hexec h.fitting).mpr (h.not_completed hcompleted)
    | hangs =>
      have hexec : (execute c command).on w = (.error .hangs, w') := by
        rw [execute_eq hid, on_attempt_hangs (on_bind_error hobtain)]
      exact agrees_of_not_threw hexec (by simp) h.fitting

theorem agrees_of_obtained (hobtain : (obtainResult c command id).on w = (.ok (task, result), w'))
    (h : Obtained c id command task result w w') :
    Agrees c command w ↔ ¬ (result.isSuccess = true ∧ LateFailure c command task result) := by
  by_cases hlate : LateFailure c command task result
  · obtain ⟨e, w₁, hfinish, hended⟩ := finish_late (w := w') h.task_id h.task_status hlate
    have hexec : (execute c command).on w = (recover c command id e).on w₁ := by
      rw [execute_eq hid, on_attempt_threw ((on_bind_ok hobtain).trans hfinish)]
    rw [agrees_of_recover hid hexec (hended.fitting h.fitting), hended.stored]
    cases hsuccess : result.isSuccess <;> simp [finalStatus, hsuccess, hlate]
  · refine iff_of_true ?_ (fun hboth => hlate hboth.2)
    obtain ⟨score, w₁, hfinish, hended⟩ | ⟨e, hfinish⟩ :=
      finish_not_late (w := w') h.task_id h.task_status hlate
    · have hexec : (execute c command).on w = (.ok (answerOf command result score), w₁) := by
        rw [execute_eq hid, on_attempt_ok ((on_bind_ok hobtain).trans hfinish)]
      exact agrees_of_not_threw hexec (by simp) (hended.fitting h.fitting)
    · have hexec : (execute c command).on w = (recover c command id e).on w' := by
        rw [execute_eq hid, on_attempt_threw ((on_bind_ok hobtain).trans hfinish)]
      refine (agrees_of_recover hid hexec h.fitting).mpr ?_
      simp [h.stored]

end ValidId

end Agrees

/-- The events and the stored task agree unless the task was completed before, or is completed when
something rejects. -/
theorem agrees_iff (c : Circumstances) (command : ExecuteTaskCommand) (w : World) :
    Agrees c command w ↔ stored command w ≠ some .completed ∧ ¬ Late c command w := by
  cases hid : TaskId.fromString command.taskId with
  | error message =>
    have hexec : (execute c command).on w = (.error (.threw (.error message)), w) := by
      simp only [execute, hid]
      rfl
    have hnone : stored command w = none := by
      rw [stored, hid]
      rfl
    refine iff_of_true ⟨?_, fun e he => ?_⟩ ⟨by simp [hnone], ?_⟩
    · rw [hexec]
      exact .refl
    · simp [hexec, hnone]
    · rintro ⟨id, -, -, -, hok, -⟩
      cases hid.symm.trans hok
  | ok id =>
    rw [stored_of_ok hid]
    obtain ⟨halt, w₁, hobtain, hunder⟩ | ⟨task, result, w₁, hobtain, hresult⟩ :=
      obtainResult_spec c command id w
    · have hnotLate : ¬ Late c command w := by
        rintro ⟨id', task, result, w', hid', hok, -⟩
        cases hid.symm.trans hid'
        cases hobtain.symm.trans hok
      rw [agrees_of_underway hid hobtain hunder]
      exact ⟨fun h => ⟨h, hnotLate⟩, fun h => h.1⟩
    · have hlate : Late c command w ↔ result.isSuccess = true ∧ LateFailure c command task
        result := by
        constructor
        · rintro ⟨id', task', result', w', hid', hok, hlate⟩
          cases hid.symm.trans hid'
          cases hobtain.symm.trans hok
          exact hlate
        · exact fun h => ⟨id, task, result, w₁, hid, hobtain, h⟩
      have hpending : w.tasks.status id ≠ some .completed := by
        intro hcompleted
        obtain ⟨e, hnone⟩ := obtainResult_completed c command hcompleted
        cases hobtain.symm.trans hnone
      rw [agrees_of_obtained hid hobtain hresult, hlate]
      exact ⟨fun h => ⟨hpending, h⟩, fun h => h.2⟩

def busDown : Circumstances :=
  { calm with
    registry _ := some ⟨.claude, fun _ => ⟨some 1, .ok { output := ofString "Hi" }⟩⟩
    emitCompleted := .error (.error "bus down") }

theorem failed_but_completed : ((execute busDown runFresh).on .fresh).2.events =
      [(.started runFresh.taskId, some .inProgress),
        (.completed runFresh.taskId (ofString "result_0_a") .claude true, some .completed),
        (.failed runFresh.taskId (.text (ofString "bus down")), some .completed)] ∧
    ∃ e, ((execute busDown runFresh).on .fresh).1 = .error (.threw e) ∧
      stored runFresh ((execute busDown runFresh).on .fresh).2 = some .completed :=
  ⟨rfl, _, rfl, rfl⟩

end Bridge.UseCases.Execution
