import Mathlib.Data.Rat.Defs
import Bridge.Lib.Heap
import Bridge.Lib.Run

/-!
# The history of the workflows

The store keeps the execution that runs twice: as `currentExecution`, and among the `executions`.
Every action rebuilds the executions it changes, and few of them do the same to the copy. Only the
steps are shared: an execution holds an array of step objects, the array is copied and the objects
are not, so what `Object.assign` writes into a step is seen in both. The steps are therefore kept on
a heap.
-/

namespace Bridge.Web.WorkflowHistory

open Lib List Option

/-! ## Executions -/

abbrev Moment := Option Int

/-- A number, or `NaN`. -/
abbrev Duration := Option Rat

inductive StepStatus
  | pending
  | executing
  | completed
  | failed
  deriving DecidableEq

inductive Status
  | executing
  | completed
  | failed
  | cancelled
  deriving DecidableEq

/-- A step; an update may set any of its fields to `undefined`. -/
structure WorkflowStep (V : Type) where
  stepIndex : Option Rat
  stepName : Option String
  ai : Option String
  task : Option String
  startTime : Option Moment
  endTime : Option Moment := none
  duration : Option Duration := none
  result : Option V := none
  error : Option String := none
  status : Option StepStatus
  deriving DecidableEq

/-- `Partial<WorkflowStep>`: each field may be absent. -/
structure StepUpdate (V : Type) where
  stepIndex : Option (Option Rat) := none
  stepName : Option (Option String) := none
  ai : Option (Option String) := none
  task : Option (Option String) := none
  startTime : Option (Option Moment) := none
  endTime : Option (Option Moment) := none
  duration : Option (Option Duration) := none
  result : Option (Option V) := none
  error : Option (Option String) := none
  status : Option (Option StepStatus) := none
  deriving DecidableEq

inductive RefinementType
  | single
  | all
  deriving DecidableEq

structure Refinement (V : Type) where
  stepIndex : Option Rat
  type : RefinementType
  timestamp : Moment
  result : Option V
  deriving DecidableEq

inductive ExportFormat
  | vscode
  | markdown
  | json
  deriving DecidableEq

structure PromptExport where
  timestamp : Moment
  format : ExportFormat
  content : String
  deriving DecidableEq

structure Metadata where
  userPersona : Option String := none
  orchestrator : Option String := none
  mode : Option String := none
  totalTokensUsed : Option Rat := none
  estimatedCost : Option Rat := none
  deriving DecidableEq

structure MetadataUpdate where
  userPersona : Option (Option String) := none
  orchestrator : Option (Option String) := none
  mode : Option (Option String) := none
  totalTokensUsed : Option (Option Rat) := none
  estimatedCost : Option (Option Rat) := none
  deriving DecidableEq

/-- An execution with steps of type `S`: the references to them, or what they are. -/
structure WorkflowExecution (V S : Type) where
  id : String
  workflowType : String
  workflowTitle : String
  taskDescription : String
  startTime : Moment
  endTime : Option Moment := none
  duration : Option Duration := none
  status : Status
  steps : List S
  refinements : List (Refinement V)
  promptExports : List PromptExport
  metadata : Metadata
  deriving DecidableEq

structure WorkflowHistoryFilters where
  workflowType : Option String := none
  status : Option Status := none
  dateFrom : Option Moment := none
  dateTo : Option Moment := none
  searchQuery : Option String := none
  deriving DecidableEq

section Store

variable {V : Type}

abbrev Execution (V : Type) := WorkflowExecution V Nat

structure State (V : Type) where
  heap : Heap (WorkflowStep V)
  executions : List (Execution V)
  currentExecution : Option (Execution V)
  filters : WorkflowHistoryFilters

def view (heap : Heap (WorkflowStep V)) (e : Execution V) :
    WorkflowExecution V (Option (WorkflowStep V)) where
  id := e.id
  workflowType := e.workflowType
  workflowTitle := e.workflowTitle
  taskDescription := e.taskDescription
  startTime := e.startTime
  endTime := e.endTime
  duration := e.duration
  status := e.status
  steps := e.steps.map heap.read
  refinements := e.refinements
  promptExports := e.promptExports
  metadata := e.metadata

/-- `executions.find(e => e.id === id)` -/
def find (executions : List (Execution V)) (id : String) : Option (Execution V) :=
  executions.find? fun e => decide (e.id = id)

/-! ## The actions -/

def between (start finish : Moment) : Duration := do
  let start ← start
  let finish ← finish
  some (finish - start : Int)

/-- `{ ...step, ...update }` -/
def WorkflowStep.assign (step : WorkflowStep V) (update : StepUpdate V) : WorkflowStep V where
  stepIndex := update.stepIndex.getD step.stepIndex
  stepName := update.stepName.getD step.stepName
  ai := update.ai.getD step.ai
  task := update.task.getD step.task
  startTime := update.startTime.getD step.startTime
  endTime := update.endTime.getD step.endTime
  duration := update.duration.getD step.duration
  result := update.result.getD step.result
  error := update.error.getD step.error
  status := update.status.getD step.status

def WorkflowStep.revise (step : WorkflowStep V) (update : StepUpdate V) : WorkflowStep V :=
  let step := step.assign update
  match update.endTime.join, step.startTime with
  | some endTime, some startTime => { step with duration := some (between startTime endTime) }
  | _, _ => step

def newStep (stepIndex : Rat) (update : StepUpdate V) (now : Moment) : WorkflowStep V :=
  WorkflowStep.assign
    { stepIndex := some stepIndex, stepName := some "", ai := some "", task := some "",
      startTime := some now, status := some .executing } update

def existingStep (heap : Heap (WorkflowStep V)) (e : Execution V) (stepIndex : Rat) : Option Nat :=
  e.steps.find? fun r => decide ((heap.read r).bind WorkflowStep.stepIndex = some stepIndex)

/-- What `updateExecutionStep` makes of one execution with the id. -/
def reviseSteps (stepIndex : Rat) (update : StepUpdate V) (now : Moment)
    (heap : Heap (WorkflowStep V)) (e : Execution V) : Heap (WorkflowStep V) × Execution V :=
  match existingStep heap e stepIndex with
  | some r =>
    match heap.read r with
    | some step => (heap.write r (step.revise update), e)
    | none => (heap, e)
  | none => (heap.alloc (newStep stepIndex update now), { e with steps := e.steps ++ [heap.next] })

/-- What `updateExecutionStep` makes of each execution. -/
def reviseOne (executionId : String) (stepIndex : Rat) (update : StepUpdate V) (now : Moment)
    (heap : Heap (WorkflowStep V)) (e : Execution V) : Heap (WorkflowStep V) × Execution V :=
  if e.id ≠ executionId then (heap, e) else reviseSteps stepIndex update now heap e

/-- `executions.map(…)` with a function that writes to the heap. -/
def mapHeap (f : Heap (WorkflowStep V) → Execution V → Heap (WorkflowStep V) × Execution V) :
    Heap (WorkflowStep V) → List (Execution V) → Heap (WorkflowStep V) × List (Execution V)
  | heap, [] => (heap, [])
  | heap, e :: es =>
    let (heap, e) := f heap e
    let (heap, es) := mapHeap f heap es
    (heap, e :: es)

/-- `executions.map(exec => exec.id !== id ? exec : f(exec))` -/
def updateExecution (executions : List (Execution V)) (id : String)
    (f : Execution V → Execution V) : List (Execution V) :=
  executions.map fun e => if e.id ≠ id then e else f e

/-- `{ ...metadata, ...update }` -/
def Metadata.assign (metadata : Metadata) (update : MetadataUpdate) : Metadata where
  userPersona := update.userPersona.getD metadata.userPersona
  orchestrator := update.orchestrator.getD metadata.orchestrator
  mode := update.mode.getD metadata.mode
  totalTokensUsed := update.totalTokensUsed.getD metadata.totalTokensUsed
  estimatedCost := update.estimatedCost.getD metadata.estimatedCost

def newExecution (id workflowType workflowTitle taskDescription : String) (now : Moment) :
    Execution V where
  id := id
  workflowType := workflowType
  workflowTitle := workflowTitle
  taskDescription := taskDescription
  startTime := now
  status := .executing
  steps := []
  refinements := []
  promptExports := []
  metadata := {}

namespace State

section Service

variable (s : State V)

/-- `id` is what `generateId` returns. -/
def startExecution (id workflowType workflowTitle taskDescription : String)
    (now : Moment) : State V :=
  let e := newExecution id workflowType workflowTitle taskDescription now
  { s with executions := s.executions ++ [e], currentExecution := some e }

/-- The steps of the copy are those the execution had before the update. -/
def updateExecutionStep (executionId : String) (stepIndex : Rat)
    (update : StepUpdate V) (now : Moment) : State V :=
  let (heap, executions) := mapHeap (reviseOne executionId stepIndex update now) s.heap s.executions
  { s with
    heap := heap
    executions := executions
    currentExecution := s.currentExecution.map fun c =>
      if c.id = executionId then
        { c with steps := ((find s.executions executionId).map WorkflowExecution.steps).getD [] }
      else c }

def completeExecution (executionId : String) (status : Status) (now : Moment) : State V :=
  { s with
    executions := updateExecution s.executions executionId fun e =>
      { e with status, endTime := some now, duration := some (between e.startTime now) }
    currentExecution := s.currentExecution.filter fun c => decide (c.id ≠ executionId) }

def addRefinement (executionId : String) (refinement : Refinement V) : State V :=
  { s with executions := updateExecution s.executions executionId fun e =>
      { e with refinements := e.refinements ++ [refinement] } }

def addPromptExport (executionId : String) (exportData : PromptExport) : State V :=
  { s with executions := updateExecution s.executions executionId fun e =>
      { e with promptExports := e.promptExports ++ [exportData] } }

def updateMetadata (executionId : String) (metadata : MetadataUpdate) : State V :=
  { s with executions := updateExecution s.executions executionId fun e =>
      { e with metadata := e.metadata.assign metadata } }

def setFilters (filters : WorkflowHistoryFilters) : State V := { s with filters }

def clearHistory : State V := { s with executions := [], currentExecution := none }

end Service

end State

/-- The store when it is created, or when it has taken the executions it finds in the storage. -/
def init (heap : Heap (WorkflowStep V)) (stored : List (Execution V)) : State V :=
  ⟨heap, stored, none, {}⟩

/-- An action, with the time it is taken at and the id it generates. -/
inductive Action (V : Type)
  | startExecution (id workflowType workflowTitle taskDescription : String) (now : Moment)
  | updateExecutionStep (executionId : String) (stepIndex : Rat) (update : StepUpdate V)
      (now : Moment)
  | completeExecution (executionId : String) (status : Status) (now : Moment)
  | addRefinement (executionId : String) (refinement : Refinement V)
  | addPromptExport (executionId : String) (exportData : PromptExport)
  | updateMetadata (executionId : String) (metadata : MetadataUpdate)
  | setFilters (filters : WorkflowHistoryFilters)
  | clearHistory

def step (s : State V) : Action V → Option (State V)
  | .startExecution id workflowType workflowTitle taskDescription now =>
    some (s.startExecution id workflowType workflowTitle taskDescription now)
  | .updateExecutionStep executionId stepIndex update now =>
    some (s.updateExecutionStep executionId stepIndex update now)
  | .completeExecution executionId status now => some (s.completeExecution executionId status now)
  | .addRefinement executionId refinement => some (s.addRefinement executionId refinement)
  | .addPromptExport executionId exportData => some (s.addPromptExport executionId exportData)
  | .updateMetadata executionId metadata => some (s.updateMetadata executionId metadata)
  | .setFilters filters => some (s.setFilters filters)
  | .clearHistory => some s.clearHistory

/-! ## The two copies -/

def InSync (s : State V) : Prop :=
  ∀ c, s.currentExecution = some c →
    (find s.executions c.id).map (view s.heap) = some (view s.heap c)

def KeepsCopy (s : State V) : Action V → Prop
  | .startExecution id workflowType workflowTitle taskDescription now =>
    ∀ e, find s.executions id = some e →
      view s.heap e = view s.heap (newExecution id workflowType workflowTitle taskDescription now)
  | .updateExecutionStep executionId stepIndex _ _ =>
    ∀ c, s.currentExecution = some c → c.id = executionId → (existingStep s.heap c stepIndex).isSome
  | .addRefinement executionId _ | .addPromptExport executionId _ =>
    ∀ c, s.currentExecution = some c → c.id ≠ executionId
  | .updateMetadata executionId metadata =>
    ∀ c, s.currentExecution = some c → c.id = executionId → c.metadata.assign metadata = c.metadata
  | .completeExecution .. | .setFilters _ | .clearHistory => True

def Shared (s : State V) : Prop :=
  ∀ c, s.currentExecution = some c → find s.executions c.id = some c

theorem Shared.inSync {s : State V} (h : Shared s) : InSync s := by
  intro c hc
  rw [h c hc, map_some]

variable {f : Execution V → Execution V}

section Find

variable {executions : List (Execution V)} {id id' : String} {e : Execution V}

theorem find_cons_of_eq (h : e.id = id) : find (e :: executions) id = some e :=
  find?_cons_of_pos (decide_eq_true h)

theorem find_cons_of_ne (hne : e.id ≠ id) : find (e :: executions) id = find executions id :=
  find?_cons_of_neg (by simpa using hne)

theorem find_append_self : find (executions ++ [e]) e.id =
    some ((find executions e.id).getD e) := by
  have happend : find (executions ++ [e]) e.id = (find executions e.id).or (find [e] e.id) :=
    find?_append
  rw [happend, find_cons_of_eq rfl]
  cases find executions e.id with
  | none => rfl
  | some e' => rfl

theorem find_id (h : find executions id = some e) : e.id = id := by
  simpa using find?_some h

theorem find_updateExecution (hid : ∀ e, (f e).id = e.id) :
    find (updateExecution executions id f) id' =
      (find executions id').map fun e => if e.id ≠ id then e else f e := by
  have hsame : ((fun e => decide (e.id = id')) ∘ fun e => if e.id ≠ id then e else f e) =
      fun e => decide (e.id = id') := by
    funext e
    simp only [Function.comp]
    split_ifs
    · rfl
    · rw [hid]
  unfold find updateExecution
  rw [find?_map, hsame]

theorem find_updateExecution_of_ne (hid : ∀ e, (f e).id = e.id)
    (hne : id' ≠ id) : find (updateExecution executions id f) id' = find executions id' := by
  rw [find_updateExecution hid]
  cases h : find executions id' with
  | none => rfl
  | some e =>
    rw [map_some, if_pos]
    rw [find_id h]
    exact hne

theorem find_updateExecution_self (hid : ∀ e, (f e).id = e.id) (h : find executions id = some e) :
    find (updateExecution executions id f) id = some (f e) := by
  rw [find_updateExecution hid, h, map_some, if_neg]
  exact not_not.mpr (find_id h)

end Find

section Steps

variable {heap : Heap (WorkflowStep V)} {executions : List (Execution V)} {executionId id : String}
  {stepIndex : Rat} {update : StepUpdate V} {now : Moment} {e : Execution V}

theorem reviseSteps_of_existing (h : (existingStep heap e stepIndex).isSome) :
    (reviseSteps stepIndex update now heap e).2 = e := by
  obtain ⟨r, hr⟩ := isSome_iff_exists.mp h
  unfold reviseSteps
  rw [hr]
  dsimp only
  cases heap.read r with
  | none => rfl
  | some step => rfl

theorem reviseSteps_of_new (h : existingStep heap e stepIndex = none) :
    (reviseSteps stepIndex update now heap e).2 = { e with steps := e.steps ++ [heap.next] } := by
  unfold reviseSteps
  rw [h]

theorem reviseSteps_id : (reviseSteps stepIndex update now heap e).2.id = e.id := by
  cases h : existingStep heap e stepIndex with
  | none => rw [reviseSteps_of_new h]
  | some r => rw [reviseSteps_of_existing (h ▸ rfl)]

theorem reviseOne_id : (reviseOne executionId stepIndex update now heap e).2.id = e.id := by
  unfold reviseOne
  split_ifs
  · rfl
  · exact reviseSteps_id

theorem mapHeap_cons {es : List (Execution V)}
    (f : Heap (WorkflowStep V) → Execution V → Heap (WorkflowStep V) × Execution V) :
    (mapHeap f heap (e :: es)).2 = (f heap e).2 :: (mapHeap f (f heap e).1 es).2 := rfl

theorem find_mapHeap_of_ne (hne : executionId ≠ id) :
    find (mapHeap (reviseOne executionId stepIndex update now) heap executions).2 id =
      find executions id := by
  induction executions generalizing heap with
  | nil => rfl
  | cons e es ih =>
    rw [mapHeap_cons]
    by_cases hid : e.id = id
    · subst hid
      have hsame : (reviseOne executionId stepIndex update now heap e).2 = e := by
        rw [reviseOne, if_pos (Ne.symm hne)]
      rw [hsame, find_cons_of_eq rfl, find_cons_of_eq rfl]
    · rw [find_cons_of_ne (reviseOne_id.trans_ne hid), find_cons_of_ne hid, ih]

theorem find_mapHeap_self (h : find executions executionId = some e) :
    find (mapHeap (reviseOne executionId stepIndex update now) heap executions).2 executionId =
      some (reviseSteps stepIndex update now heap e).2 := by
  induction executions with
  | nil => cases h
  | cons e' es ih =>
    rw [mapHeap_cons]
    by_cases hid : e'.id = executionId
    · subst hid
      obtain rfl := some.inj ((find_cons_of_eq rfl).symm.trans h)
      have hrevise : reviseOne e'.id stepIndex update now heap e' =
          reviseSteps stepIndex update now heap e' := if_neg (not_not.mpr rfl)
      rw [← hrevise]
      exact find_cons_of_eq reviseOne_id
    · rw [find_cons_of_ne hid] at h
      have hsame : reviseOne executionId stepIndex update now heap e' = (heap, e') := if_pos hid
      rw [hsame, find_cons_of_ne hid]
      exact ih h

end Steps

/-! ## The actions on the two copies -/

section Actions

variable {s : State V}

theorem eq_newExecution_of_view {heap : Heap (WorkflowStep V)} {e : Execution V}
    {id workflowType workflowTitle taskDescription : String} {now : Moment} (h : view heap e =
      view heap (newExecution id workflowType workflowTitle taskDescription now)) :
    e = newExecution id workflowType workflowTitle taskDescription now := by
  obtain ⟨_, _, _, _, _, _, _, _, steps, _, _, _⟩ := e
  have hsteps : steps = [] := map_eq_nil_iff.mp (congrArg WorkflowExecution.steps h)
  subst hsteps
  cases h
  rfl

theorem Shared.update {id : String} (h : Shared s) (hid : ∀ e, (f e).id = e.id)
    (hf : ∀ c, s.currentExecution = some c → c.id = id → f c = c) :
    Shared { s with executions := updateExecution s.executions id f } := by
  intro c hc
  have hfind : find s.executions c.id = some c := h c hc
  by_cases hne : c.id = id
  · subst hne
    exact (find_updateExecution_self hid hfind).trans (congrArg some (hf c hc rfl))
  · exact (find_updateExecution_of_ne hid hne).trans hfind

theorem InSync.update {id : String}
    (hsync : InSync { s with executions := updateExecution s.executions id f }) (h : Shared s)
    (hid : ∀ e, (f e).id = e.id) :
    ∀ c, s.currentExecution = some c → c.id = id → view s.heap (f c) = view s.heap c := by
  rintro c hc rfl
  have hview := hsync c hc
  rw [find_updateExecution_self hid (h c hc)] at hview
  exact some.inj hview

theorem append_singleton_ne {α : Type} (l : List α) (a : α) : l ++ [a] ≠ l := by
  intro h
  have hlength := congrArg length h
  simp at hlength

theorem Shared.updateExecutionStep_current {executionId : String} {stepIndex : Rat}
    {update : StepUpdate V} {now : Moment} (h : Shared s) :
    (s.updateExecutionStep executionId stepIndex update now).currentExecution =
      s.currentExecution := by
  show s.currentExecution.map _ = s.currentExecution
  cases hc : s.currentExecution with
  | none => rfl
  | some c =>
    rw [map_some]
    split_ifs with hid
    · subst hid
      rw [h c hc]
      rfl
    · rfl

theorem Shared.next {s' : State V} {a : Action V} (h : Shared s) (hs : step s a = some s')
    (hkeeps : KeepsCopy s a) : Shared s' := by
  cases a with
  | startExecution id workflowType workflowTitle taskDescription now =>
    cases hs
    intro c hc
    cases hc
    refine find_append_self.trans (congrArg some ?_)
    cases hfind : find s.executions
      (newExecution id workflowType workflowTitle taskDescription now : Execution V).id with
    | none => rfl
    | some e => exact eq_newExecution_of_view (hkeeps e hfind)
  | updateExecutionStep executionId stepIndex update now =>
    cases hs
    intro c hc
    rw [h.updateExecutionStep_current] at hc
    by_cases hid : executionId = c.id
    · subst hid
      refine (find_mapHeap_self (h c hc)).trans ?_
      rw [reviseSteps_of_existing (hkeeps c hc rfl)]
    · exact (find_mapHeap_of_ne hid).trans (h c hc)
  | completeExecution executionId status now =>
    cases hs
    intro c hc
    obtain ⟨hcurrent, hne⟩ := filter_eq_some_iff.mp hc
    refine (find_updateExecution_of_ne ?_ (of_decide_eq_true hne)).trans (h c hcurrent)
    exact fun _ => rfl
  | addRefinement executionId refinement =>
    cases hs
    exact h.update (fun _ => rfl) fun c hc hid => absurd hid (hkeeps c hc)
  | addPromptExport executionId exportData =>
    cases hs
    exact h.update (fun _ => rfl) fun c hc hid => absurd hid (hkeeps c hc)
  | updateMetadata executionId metadata =>
    cases hs
    refine h.update (fun _ => rfl) fun c hc hid => ?_
    rw [hkeeps c hc hid]
  | setFilters filters =>
    cases hs
    exact h
  | clearHistory =>
    cases hs
    intro c hc
    cases hc

theorem Shared.keepsCopy {s' : State V} {a : Action V} (h : Shared s) (hs : step s a = some s')
    (hsync : InSync s') : KeepsCopy s a := by
  cases a with
  | startExecution id workflowType workflowTitle taskDescription now =>
    cases hs
    intro e hfind
    have hview := (congrArg _ find_append_self).symm.trans (hsync _ rfl)
    have hfound : find s.executions
        (newExecution id workflowType workflowTitle taskDescription now : Execution V).id =
          some e :=
      hfind
    rw [hfound] at hview
    exact some.inj hview
  | updateExecutionStep executionId stepIndex update now =>
    cases hs
    rintro c hc rfl
    by_contra hnew
    have hnone : existingStep s.heap c stepIndex = none := not_isSome_iff_eq_none.mp hnew
    have hview := (congrArg _ (find_mapHeap_self (h c hc))).symm.trans
      (hsync c (h.updateExecutionStep_current.trans hc))
    rw [reviseSteps_of_new hnone] at hview
    have hsteps := congrArg WorkflowExecution.steps (some.inj hview)
    exact append_singleton_ne _ _ (map_append.symm.trans hsteps)
  | addRefinement executionId refinement =>
    cases hs
    intro c hc hid
    have hview := InSync.update hsync h (fun _ => rfl) c hc hid
    exact append_singleton_ne _ _ (congrArg WorkflowExecution.refinements hview)
  | addPromptExport executionId exportData =>
    cases hs
    intro c hc hid
    have hview := InSync.update hsync h (fun _ => rfl) c hc hid
    exact append_singleton_ne _ _ (congrArg WorkflowExecution.promptExports hview)
  | updateMetadata executionId metadata =>
    cases hs
    intro c hc hid
    have hview := InSync.update hsync h (fun _ => rfl) c hc hid
    exact congrArg WorkflowExecution.metadata hview
  | completeExecution | setFilters | clearHistory => trivial

end Actions

/-- **When the copy of the execution that runs is equal to it throughout.** -/
theorem inSync_iff (heap : Heap (WorkflowStep V)) (stored : List (Execution V))
    (run : List (Action V)) :
    Always step InSync (init heap stored) run ↔ Guarded step KeepsCopy (init heap stored) run := by
  apply always_iff_guarded Shared.inSync Shared.next Shared.keepsCopy
  intro c hc
  cases hc

theorem copy_left_behind :
    ¬ InSync (((init .empty [] : State String).startExecution "exec_1" "code" "Code" "task"
        (some 0)).updateExecutionStep "exec_1" 0 {} (some 1)) ∧
    ¬ InSync (((init .empty [] : State String).startExecution "exec_1" "code" "Code" "task"
        (some 0)).addRefinement "exec_1" ⟨none, .all, some 1, none⟩) ∧
    ¬ InSync (((init .empty [] : State String).startExecution "exec_1" "code" "Code" "task"
        (some 0)).addPromptExport "exec_1" ⟨some 1, .json, "text"⟩) ∧
    ¬ InSync (((init .empty [] : State String).startExecution "exec_1" "code" "Code" "task"
        (some 0)).updateMetadata "exec_1" { mode := some (some "hybrid") }) := by
  refine ⟨?_, ?_, ?_, ?_⟩
  all_goals
    intro h
    exact absurd (h _ rfl) (by decide +kernel)

end Store

end Bridge.Web.WorkflowHistory
