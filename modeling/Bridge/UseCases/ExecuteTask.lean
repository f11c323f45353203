import Mathlib.Data.List.Infix
import Bridge.Domain.Task
import Bridge.Lib.Run

/-!
# `ExecuteTaskUseCase`

Any number of `execute` calls for one task. The repository returns the stored task itself, so the
calls share one object, and `updateStatus` takes effect at once, before any `save`.

Not modelled: log lines and metrics, the ids of results, and times (a timeout is an error the
adapter call ends with, as in the source).
-/

namespace Bridge.UseCases

open Lib Domain

/-- What an adapter call ends with: an output, an error with or without a message, or a thrown
`null` or `undefined`, whose `message` cannot even be read. -/
inductive Answer where
  | output (text : String) (retryCount : Option Nat)
  | error (message : Option String)
  | nullish
  deriving DecidableEq, Repr

structure Options where
  forceAdapter : Option AdapterType
  retryOnFailure : Bool
  validateResult : Bool
  deriving DecidableEq, Repr

/-- What the use case is constructed with: the adapters that are registered, and `toLowerCase`. -/
structure Config where
  registered : AdapterType → Bool
  lower : String → String

inductive Failure where
  | taskNotFound
  | invalidTaskState (status : TaskStatus)
  | adapterNotAvailable (a : AdapterType)
  -- thrown by `updateStatus`
  | cannotTransition (message : String)
  -- a rejection of a collaborator, or a `TypeError`
  | other
  deriving DecidableEq, Repr

inductive Pc where
  -- `findById`
  | find
  -- `save`, with the status `IN_PROGRESS`
  | save
  -- `emit` of `task:started`
  | started
  -- `route`
  | route
  -- `executeWithAdapter`: the adapter call, and the second one
  | execute (a : AdapterType)
  | retry (a : AdapterType)
  -- `save` of the result
  | saveResult (r : Result)
  -- `save`, with the final status
  | saveTask (r : Result)
  | validate (r : Result)
  -- `emit` of `task:completed`
  | completed (r : Result)
  -- the `catch` block: `findById`, `save`, and `emit` of `task:failed`
  | refind (e : Failure)
  | resave (e : Failure)
  | failed (e : Failure)
  | returned (r : Result)
  | rejected (e : Failure)
  deriving DecidableEq, Repr

def Pc.settled : Pc → Bool
  | .returned _ => true
  | .rejected _ => true
  | _ => false

/-- How what a call waits for settles. `ok` says whether it resolves; the rest is what it resolves
with, where that matters. -/
structure Input where
  ok : Bool
  answer : Answer
  routed : AdapterType
  now : Nat

/-- The messages `isRetryableError` looks for. -/
def nonRetryableErrors : List String :=
  ["Invalid API key", "Rate limit exceeded", "Invalid request", "Task execution timeout"]

def isRetryableError (cfg : Config) (message : Option String) : Bool :=
  match message with
  | none => true
  | some msg => !nonRetryableErrors.any fun phrase =>
      decide ((cfg.lower phrase).toList <:+: (cfg.lower msg).toList)

def callAdapter (cfg : Config) (a : AdapterType) : Pc :=
  if cfg.registered a then .execute a else .refind (.adapterNotAvailable a)

/-- One step of a call: the task after it, and where the call is. -/
def Pc.exec (cfg : Config) (opts : Options) (inp : Input) (task : Option Task) :
    Pc → Option (Option Task × Pc)
  | .find =>
    if !inp.ok then some (task, .refind .other)
    else
      match task with
      | none => some (task, .refind .taskNotFound)
      | some t =>
        if t.canTransitionTo .inProgress then
          match t.updateStatus .inProgress inp.now with
          | .ok t' => some (some t', .save)
          | .error e => some (task, .refind (.cannotTransition e))
        else some (task, .refind (.invalidTaskState t.status))
  | .save => some (task, if inp.ok then .started else .refind .other)
  | .started =>
    if !inp.ok then some (task, .refind .other)
    else
      match opts.forceAdapter with
      | some a => some (task, callAdapter cfg a)
      | none => some (task, .route)
  | .route => some (task, if inp.ok then callAdapter cfg inp.routed else .refind .other)
  | .execute a =>
    match inp.answer with
    | .output text k => some (task, .saveResult (.createSuccess text a k))
    | .error msg =>
      -- the negation is the source's
      if opts.retryOnFailure && !isRetryableError cfg msg then some (task, .retry a)
      else some (task, .saveResult (.createError msg a))
    | .nullish => some (task, .refind .other)
  | .retry a =>
    match inp.answer with
    | .output text _ => some (task, .saveResult (.createSuccess text a (some 1)))
    | .error msg => some (task, .saveResult (.createError msg a))
    | .nullish => some (task, .refind .other)
  | .saveResult r =>
    if !inp.ok then some (task, .refind .other)
    else
      match task with
      | none => some (task, .saveTask r)
      | some t =>
        match t.updateStatus (if r.isSuccess then .completed else .failed) inp.now with
        | .ok t' => some (some t', .saveTask r)
        | .error e => some (task, .refind (.cannotTransition e))
  | .saveTask r =>
    if !inp.ok then some (task, .refind .other)
    else if opts.validateResult && r.isSuccess then some (task, .validate r)
    else some (task, .completed r)
  | .validate r => some (task, if inp.ok then .completed r else .refind .other)
  | .completed r => some (task, if inp.ok then .returned r else .refind .other)
  | .refind e =>
    -- what goes wrong here is logged and forgotten
    match inp.ok, task with
    | true, some t =>
      if t.status = .inProgress then
        match t.updateStatus .failed inp.now with
        | .ok t' => some (some t', .resave e)
        | .error _ => some (task, .failed e)
      else some (task, .failed e)
    | _, _ => some (task, .failed e)
  | .resave e => some (task, .failed e)
  | .failed e => some (task, .rejected (if inp.ok then e else .other))
  | .returned _ => none
  | .rejected _ => none

/-! ## Calls -/

structure Call where
  opts : Options
  pc : Pc
  -- what happened, for the statements: the call has moved the task to `IN_PROGRESS`; what its last
  -- adapter call ended with
  moved : Bool
  answer : Option Answer
  deriving DecidableEq

def Call.next (c : Call) (inp : Input) (pc : Pc) : Call :=
  { c with
    pc := pc
    moved := c.moved || (c.pc == .find && pc == .save)
    answer := match c.pc with
      | .execute _ => some inp.answer
      | .retry _ => some inp.answer
      | _ => c.answer }

structure State where
  task : Option Task
  calls : List Call

namespace State

def init (task : Option Task) : State := ⟨task, []⟩

def status (s : State) : Option TaskStatus := s.task.map Task.status

inductive Step where
  | call (opts : Options)
  | step (i : Nat) (inp : Input)


def step (cfg : Config) (s : State) : Step → Option State
  | .call opts => some { s with calls := s.calls ++ [⟨opts, .find, false, none⟩] }
  | .step i inp =>
    match s.calls[i]? with
    | none => none
    | some c => (c.pc.exec cfg c.opts inp s.task).map fun r =>
        ⟨r.1, s.calls.set i (c.next inp r.2)⟩

end State

end Bridge.UseCases
