import Mathlib.Algebra.Ring.Int.Defs
import Mathlib.Data.List.AList
import Bridge.Domain.Task
import Bridge.Lib.Prog
import Bridge.Lib.Texts

/-!
# `CollaborativeExecutionUseCase`

One `execute` call. What the collaborators do during the call is its environment `Env`: for every
call made to them, by the place it is made at, what it resolves with, or that it rejects.

Not modelled: log lines, the priority and the context of tasks, the ids of results, timestamps, and
the tasks made up for single steps, of which only the prompt is read back.
-/

namespace Bridge.UseCases.Collaborative

open Lib Domain

/-! ## Commands and results -/

inductive CollaborationMode where
  | sequential
  | parallel
  | review
  | iterative
  -- anything else that is passed for a mode
  | unknown (text : String)
  deriving DecidableEq, Repr

def CollaborationMode.text : CollaborationMode → String
  | .sequential => "SEQUENTIAL"
  | .parallel => "PARALLEL"
  | .review => "REVIEW"
  | .iterative => "ITERATIVE"
  | .unknown text => text

inductive MergeStrategy where
  | consensus
  | bestOf
  | combine
  | validate
  deriving DecidableEq, Repr

structure Command where
  taskId : Option String
  prompt : Option String
  type : Option TaskType
  mode : CollaborationMode
  adapters : Option (List AdapterType)
  maxIterations : Option Int
  userId : Option String
  mergeStrategy : Option MergeStrategy
  includeIntermediateResults : Bool
  stopOnConsensus : Bool
  deriving DecidableEq, Repr

namespace Command

/-- `command.taskId`, where it is tested: the empty text counts as none. -/
def named (cmd : Command) : Option String := cmd.taskId.filter (· ≠ "")

/-- `command.prompt` and `command.type`, where they are tested. -/
def supplied (cmd : Command) : Option (String × TaskType) :=
  match cmd.prompt.filter (· ≠ ""), cmd.type with
  | some prompt, some type => some (prompt, type)
  | _, _ => none

/-- `command.maxIterations || 3`, as the number of times the loop may run. -/
def iterations (cmd : Command) : Nat :=
  match cmd.maxIterations with
  | none => 3
  | some n => if n = 0 then 3 else n.toNat

end Command

structure CollaborationStep where
  step : Nat
  adapter : AdapterType
  input : String
  output : String
  executionTime : Int
  deriving DecidableEq, Repr

structure SavedResult where
  taskId : TaskId
  result : Result
  executionTime : Int
  -- of the final result only
  collaboration : Option (CollaborationMode × List AdapterType × Option Bool)
  deriving DecidableEq, Repr

structure CollaborativeExecutionResult where
  taskId : TaskId
  mode : CollaborationMode
  steps : List CollaborationStep
  finalOutput : String
  totalExecutionTime : Int
  consensus : Option Bool
  adaptersUsed : List AdapterType
  intermediateResults : Option (List SavedResult)
  deriving DecidableEq, Repr

inductive Failure where
  | taskNotFound (id : String)
  | validation (errors : List String)
  -- thrown by `TaskId.fromString`
  | invalidTaskId (message : String)
  -- thrown by `updateStatus`
  | cannotTransition (message : String)
  -- a rejection of a collaborator, or a `TypeError`
  | other
  deriving DecidableEq, Repr

/-! ## The world of a call -/

structure Repository where
  tasks : AList (fun _ : TaskId => Task)
  keyed : ∀ id t, tasks.lookup id = some t → t.id = id

namespace Repository

def findById (r : Repository) (id : TaskId) : Option Task := r.tasks.lookup id

def status (r : Repository) (id : TaskId) : Option TaskStatus := (r.findById id).map Task.status

theorem findById_id {r : Repository} {id : TaskId} {t : Task} (h : r.findById id = some t) :
    t.id = id := r.keyed id t h

def save (r : Repository) (t : Task) : Repository where
  tasks := r.tasks.insert t.id t
  keyed id t' h := by
    by_cases hid : id = t.id
    · subst hid
      rw [AList.lookup_insert] at h
      cases h
      rfl
    · rw [AList.lookup_insert_ne hid] at h
      exact r.keyed id t' h

@[simp] theorem findById_save_self {r : Repository} {t : Task} :
    (r.save t).findById t.id = some t := AList.lookup_insert _

theorem findById_save_ne {r : Repository} {t : Task} {id : TaskId} (h : id ≠ t.id) :
    (r.save t).findById id = r.findById id := AList.lookup_insert_ne h

end Repository

inductive Event where
  | started (taskId : TaskId) (mode : CollaborationMode) (adapters : List AdapterType)
  | completed (taskId : TaskId) (mode : CollaborationMode) (steps : Nat) (consensus : Option Bool)
  deriving DecidableEq, Repr

structure World where
  repo : Repository
  results : List SavedResult
  events : List Event

/-- What the collaborators do during one call. `false` and `none` stand for a rejection. -/
structure Env where
  registered : AdapterType → Bool
  -- `toLowerCase`
  lower : String → String
  -- the id `Task.create` generates
  newId : TaskId
  -- the time a task is given a status
  now : TaskStatus → Nat
  -- `findById` and `save` in `getOrCreateTask`
  finds : Bool
  savesNew : Bool
  route : Option AdapterType
  -- `save` with the status `IN_PROGRESS`; `emit` of `collaboration:started`
  savesStarted : Bool
  emitsStarted : Bool
  -- the adapter calls of the mode, in order, and how long they take
  adapter : Nat → Option String
  elapsed : Nat → Int
  -- `save` of the intermediate results, in order
  savesResult : Nat → Bool
  -- the output and the consensus of the merged result, for each strategy; how long the parallel
  -- mode takes
  merge : MergeStrategy → Option (String × Bool)
  elapsedParallel : Int
  -- `save` of the final result; `save` with the status `COMPLETED`; `emit` of
  -- `collaboration:completed`
  savesFinal : Bool
  savesCompleted : Bool
  emitsCompleted : Bool
  -- the `catch` block
  refinds : Bool
  resaves : Bool

abbrev Method := Prog World Failure

def awaits {α : Type} : Option α → Method α
  | some a => pure a
  | none => throw .other

def effect (ok : Bool) (g : World → World) : Method Unit :=
  if ok then modify g else throw .other

def saveTask (ok : Bool) (task : Task) : Method Unit :=
  effect ok fun w => { w with repo := w.repo.save task }

def saveResult (ok : Bool) (result : SavedResult) : Method Unit :=
  effect ok fun w => { w with results := w.results ++ [result] }

def emit (ok : Bool) (event : Event) : Method Unit :=
  effect ok fun w => { w with events := w.events ++ [event] }

def findById (ok : Bool) (value : String) : Method (Option Task) :=
  match TaskId.fromString value with
  | .error message => throw (.invalidTaskId message)
  | .ok id => if ok then (fun w => w.repo.findById id) <$> get else throw .other

/-- `task.updateStatus`, on a task the repository holds. -/
def updateStatus (env : Env) (task : Task) (newStatus : TaskStatus) : Method Task :=
  match task.updateStatus newStatus (env.now newStatus) with
  | .error message => throw (.cannotTransition message)
  | .ok task' => do
    modify fun w => { w with repo := w.repo.save task' }
    pure task'

/-! ## The texts -/

def prepareNextInput (previousOutput originalPrompt : String) (step : Nat) : String :=
  s!"Based on the previous analysis:\n\n{previousOutput}\n\n" ++
    s!"Please continue with step {step} of the task:\n{originalPrompt}"

def createReviewPrompt (originalPrompt primaryOutput : String) : String :=
  "Please review the following response to this task:\n\n" ++
    s!"Original Task: {originalPrompt}\n\n" ++
    s!"Response to Review:\n{primaryOutput}\n\n" ++
    "Please provide a thorough review including:\n" ++
    "1. Accuracy and completeness\n" ++
    "2. Areas for improvement\n" ++
    "3. Any errors or issues\n" ++
    "4. Overall assessment"

def combineWithReview (primaryOutput review : String) : String :=
  s!"## Primary Response\n\n{primaryOutput}\n\n" ++ s!"## Review & Validation\n\n{review}"

def prepareIterativeInput (originalInput : String) (previousOutput : Option String)
    (iteration adapterIndex : Nat) : String :=
  match previousOutput.filter (· ≠ "") with
  | none => originalInput
  | some previousOutput =>
    s!"Iteration {iteration + 1}, Step {adapterIndex + 1}:\n\n" ++
      s!"Original Task: {originalInput}\n\n" ++
      s!"Previous Output:\n{previousOutput}\n\n" ++
      "Please refine or build upon the previous output."

/-- `similarity > 0.9`, without the division. -/
def checkConsensus (lower : String → String) : List String → Bool
  | first :: second :: _ =>
    let words1 := (Utf16.splitSpaces (Utf16.ofString (lower first))).dedup
    let words2 := (Utf16.splitSpaces (Utf16.ofString (lower second))).dedup
    let intersection := words1.filter words2.contains
    decide (9 * min words1.length words2.length < 10 * intersection.length)
  | _ => false

/-- `Task.create`, with the id it generates. -/
def newTask (env : Env) (cmd : Command) (prompt : String) (type : TaskType) : Task where
  id := env.newId
  prompt := prompt
  type := type
  status := .pending
  tags := ["collaborative", env.lower cmd.mode.text]
  userId := cmd.userId
  createdAt := env.now .pending
  updatedAt := env.now .pending
  events := []

def getOrCreateTask (env : Env) (cmd : Command) : Method Task :=
  match cmd.named with
  | some value => do
    match ← findById env.finds value with
    | none => throw (.taskNotFound value)
    | some task => pure task
  | none =>
    match cmd.supplied with
    | none => throw (.validation ["Prompt and type are required when creating a new task"])
    | some (prompt, type) => do
      let task := newTask env cmd prompt type
      saveTask env.savesNew task
      pure task

def selectAdapters (env : Env) (requestedAdapters : Option (List AdapterType)) :
    Except Failure (List AdapterType) :=
  match requestedAdapters.filter (2 ≤ ·.length) with
  | some types => types.mapM fun type =>
      if env.registered type then .ok type
      else .error (.validation [s!"Adapter not available: {type.text}"])
  | none =>
    match env.route with
    | none => .error .other
    | some primary =>
      let secondary := if primary = .claude then .gemini else .claude
      if env.registered primary && env.registered secondary then .ok [primary, secondary]
      else .error (.validation ["Required adapters not available"])

/-! ## The modes -/

/-- `steps[steps.length - 1].output`. -/
def lastOutput (steps : List CollaborationStep) : Method String :=
  awaits (steps.getLast?.map CollaborationStep.output)

def totalTime (steps : List CollaborationStep) : Int :=
  (steps.map CollaborationStep.executionTime).sum

def stepResult (task : Task) (adapter : AdapterType) (output : String) (executionTime : Int) :
    SavedResult :=
  ⟨task.id, .createSuccess output adapter none, executionTime, none⟩

/-- The loop of `executeSequential`. -/
def sequentialSteps (env : Env) (cmd : Command) (task : Task) (currentInput : String)
    (steps : List CollaborationStep) (intermediateResults : List SavedResult) :
    List AdapterType → Method (List CollaborationStep × List SavedResult)
  | [] => pure (steps, intermediateResults)
  | adapter :: adapters => do
    let i := steps.length
    let output ← awaits (env.adapter i)
    let steps := steps ++ [⟨i + 1, adapter, currentInput, output, env.elapsed i⟩]
    let currentInput := prepareNextInput output task.prompt (i + 1)
    if cmd.includeIntermediateResults then
      let result := stepResult task adapter output (env.elapsed i)
      saveResult (env.savesResult i) result
      sequentialSteps env cmd task currentInput steps (intermediateResults ++ [result]) adapters
    else sequentialSteps env cmd task currentInput steps intermediateResults adapters

section Modes

variable (env : Env) (cmd : Command) (task : Task) (adapters : List AdapterType)

def executeSequential : Method CollaborativeExecutionResult := do
  let (steps, intermediateResults) ← sequentialSteps env cmd task task.prompt [] [] adapters
  let finalOutput ← lastOutput steps
  pure
    { taskId := task.id
      mode := .sequential
      steps := steps
      finalOutput := finalOutput
      totalExecutionTime := totalTime steps
      consensus := none
      adaptersUsed := adapters
      intermediateResults :=
        if cmd.includeIntermediateResults then some intermediateResults else none }

/-- `Promise.all`: it rejects when one of the calls does. -/
def parallelOutputs : Option (List (AdapterType × String)) :=
  adapters.zipIdx.mapM fun (adapter, i) => (env.adapter i).map (adapter, ·)

def executeParallel : Method CollaborativeExecutionResult := do
  let executions ← awaits (parallelOutputs env adapters)
  let steps := executions.zipIdx.map fun ((adapter, output), i) =>
    ⟨i + 1, adapter, task.prompt, output, env.elapsed i⟩
  let results := executions.zipIdx.map fun ((adapter, output), i) =>
    stepResult task adapter output (env.elapsed i)
  let (output, consensus) ← awaits (env.merge (cmd.mergeStrategy.getD .combine))
  pure
    { taskId := task.id
      mode := .parallel
      steps := steps
      finalOutput := output
      totalExecutionTime := env.elapsedParallel
      consensus := some consensus
      adaptersUsed := adapters
      intermediateResults := if cmd.includeIntermediateResults then some results else none }

def executeReview : Method CollaborativeExecutionResult :=
  match adapters with
  | [primaryAdapter, reviewerAdapter] => do
    let primaryOutput ← awaits (env.adapter 0)
    let reviewPrompt := createReviewPrompt task.prompt primaryOutput
    let review ← awaits (env.adapter 1)
    let steps := [⟨1, primaryAdapter, task.prompt, primaryOutput, env.elapsed 0⟩,
      ⟨2, reviewerAdapter, reviewPrompt, review, env.elapsed 1⟩]
    pure
      { taskId := task.id
        mode := .review
        steps := steps
        finalOutput := combineWithReview primaryOutput review
        totalExecutionTime := totalTime steps
        consensus := none
        adaptersUsed := [primaryAdapter, reviewerAdapter]
        intermediateResults := none }
  | _ => throw (.validation ["Review mode requires exactly 2 adapters"])

/-- The inner loop of `executeIterative`; `i` is the index of the next adapter. -/
def iterativePass (env : Env) (task : Task) (iteration i : Nat) (previousOutput : Option String)
    (steps : List CollaborationStep) :
    List AdapterType → Method (Option String × List CollaborationStep)
  | [] => pure (previousOutput, steps)
  | adapter :: adapters => do
    let iterativeInput := prepareIterativeInput task.prompt previousOutput iteration i
    let output ← awaits (env.adapter steps.length)
    let step := ⟨steps.length + 1, adapter, iterativeInput, output, env.elapsed steps.length⟩
    iterativePass env task iteration (i + 1) (some output) (steps ++ [step]) adapters

/-- `steps.slice(-2).map(s => s.output)`. -/
def lastTwoOutputs (steps : List CollaborationStep) : List String :=
  (steps.drop (steps.length - 2)).map CollaborationStep.output

/-- The outer loop, which may run `n` times more. -/
def iterativeLoop (env : Env) (cmd : Command) (task : Task) (adapters : List AdapterType) :
    Nat → Nat → Option String → List CollaborationStep → Method (List CollaborationStep × Bool)
  | 0, _, _, steps => pure (steps, false)
  | n + 1, iteration, previousOutput, steps => do
    let (previousOutput, steps) ← iterativePass env task iteration 0 previousOutput steps adapters
    if cmd.stopOnConsensus && decide (0 < iteration) &&
        checkConsensus env.lower (lastTwoOutputs steps) then pure (steps, true)
    else iterativeLoop env cmd task adapters n (iteration + 1) previousOutput steps

def executeIterative : Method CollaborativeExecutionResult := do
  let (steps, consensus) ← iterativeLoop env cmd task adapters cmd.iterations 0 none []
  let finalOutput ← lastOutput steps
  pure
    { taskId := task.id
      mode := .iterative
      steps := steps
      finalOutput := finalOutput
      totalExecutionTime := totalTime steps
      consensus := some consensus
      adaptersUsed := adapters
      intermediateResults := none }

/-- The `switch` over the modes. -/
def executeMode : Method CollaborativeExecutionResult :=
  match cmd.mode with
  | .sequential => executeSequential env cmd task adapters
  | .parallel => executeParallel env cmd task adapters
  | .review => executeReview env task adapters
  | .iterative => executeIterative env cmd task adapters
  | .unknown text => throw (.validation [s!"Unknown collaboration mode: {text}"])

/-- The end of the `try` block, once the mode has returned. -/
def conclude (result : CollaborativeExecutionResult) : Method CollaborativeExecutionResult := do
  saveResult env.savesFinal
    { taskId := task.id
      result := .createSuccess result.finalOutput .claude none
      executionTime := result.totalExecutionTime
      collaboration := some (cmd.mode, result.adaptersUsed, result.consensus) }
  let task ← updateStatus env task .completed
  saveTask env.savesCompleted task
  emit env.emitsCompleted (.completed task.id cmd.mode result.steps.length result.consensus)
  pure result

/-- The `try` block, once there is a task. -/
def collaborate : Method CollaborativeExecutionResult :=
  do
  let adapters ← Prog.ofExcept (selectAdapters env cmd.adapters)
  if adapters.length < 2 then
    throw (.validation ["Collaborative execution requires at least 2 adapters"])
  else
    let task ← updateStatus env task .inProgress
    saveTask env.savesStarted task
    emit env.emitsStarted (.started task.id cmd.mode adapters)
    let result ← executeMode env cmd task adapters
    conclude env cmd task result

/-- The inner `try` block of the `catch` block. -/
def repair (value : String) : Method Unit := do
  match ← findById env.refinds value with
  | none => pure ()
  | some task =>
    if task.status = .inProgress then
      let task ← updateStatus env task .failed
      saveTask env.resaves task
    else pure ()

def execute : Method CollaborativeExecutionResult :=
  tryCatch (do
    let task ← getOrCreateTask env cmd
    collaborate env cmd task)
  fun error => do
    match cmd.named with
    | some value => tryCatch (repair env value) fun _ => pure ()
    | none => pure ()
    throw error

end Modes

end Bridge.UseCases.Collaborative
