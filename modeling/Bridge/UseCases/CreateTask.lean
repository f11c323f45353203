import Bridge.Domain.Validity

/-!
# Creating a task

`CreateTaskUseCase` renders the prompt, from a template if the command names one, makes the task and
asks it to validate itself; this is the only place where the answer of `validate` counts. What is
saved is therefore valid when it is saved. Whether it stays so is up to its methods:
`created_stays_valid_iff`.
-/

namespace Bridge.UseCases.CreateTask

open Lib Domain Prog

/-- A command; `V` is the type of the template variables. -/
structure CreateTaskCommand (V : Type) where
  prompt : String
  type : TaskType
  priority : Option Rat := none
  userId : Option String := none
  templateId : Option String := none
  templateVariables : Option V := none
  metadata : Option TaskMetadata := none

inductive CreateTaskError
  | templateNotFound (templateId : String)
  | validation (errors : List String)
  /-- An `Error` with this message. -/
  | plain (message : String)
  deriving DecidableEq

structure Template (V : Type) where
  validateVariables : V → ValidationResult
  renderPrompt : V → Except CreateTaskError String

structure Collaborators (V : Type) where
  findById : String → Except CreateTaskError (Option (Template V))
  incrementUsage : Option CreateTaskError
  save : Option CreateTaskError
  emit : Option CreateTaskError
  /-- `TaskId.generate()` -/
  generated : TaskId
  now : Nat
  noVariables : V
  /-- How a number prints. -/
  number : Rat → String

structure TaskCreated where
  taskId : String
  type : TaskType
  userId : Option String
  deriving DecidableEq

structure World where
  tasks : List TaskEntity := []
  usage : String → Nat := fun _ => 0
  emitted : List TaskCreated := []

structure CreateTaskResult where
  taskId : String
  status : TaskStatus
  createdAt : Nat
  deriving DecidableEq

abbrev Command := Prog World CreateTaskError

/-- A call of a collaborator that does `f` to the world, or rejects. -/
def request (rejects : Option CreateTaskError) (f : World → World) : Command Unit :=
  match rejects with
  | some e => throw e
  | none => modify f

/-- `if (!validationResult.isValid) throw new ValidationError(validationResult.errors)` -/
def demand (validationResult : ValidationResult) : Command Unit :=
  if !validationResult.isValid then throw (.validation validationResult.errors) else pure ()

variable {V : Type} (env : Collaborators V)

def processTemplate (templateId : String) (vars : V) : Command String := do
  match ← Prog.ofExcept (env.findById templateId) with
  | none => throw (.templateNotFound templateId)
  | some template =>
    demand (template.validateVariables vars)
    let prompt ← Prog.ofExcept (template.renderPrompt vars)
    request env.incrementUsage fun w =>
      { w with usage := fun id => if id = templateId then w.usage id + 1 else w.usage id }
    return prompt

def finalPrompt (command : CreateTaskCommand V) : Command String :=
  match command.templateId with
  | none => pure command.prompt
  | some templateId =>
    if templateId = "" then pure command.prompt
    else processTemplate env templateId (command.templateVariables.getD env.noVariables)

/-- `Priority.fromValue`, for any number. -/
def fromValue (value : Rat) : Except CreateTaskError Priority :=
  match Priority.values.find? fun p => decide ((p.value : Rat) = value) with
  | some priority => .ok priority
  | none => .error (.plain ("Invalid priority value: " ++ env.number value))

/-- A priority of `0` is none. -/
def priorityOf (priority : Option Rat) : Except CreateTaskError Priority :=
  match priority with
  | none => .ok .medium
  | some value => if value = 0 then .ok .medium else fromValue env value

/-- `Task.create` -/
def createTask (command : CreateTaskCommand V) (prompt : String) (priority : Priority) :
    TaskEntity :=
  .new {
    id := env.generated
    prompt := prompt
    type := command.type
    status := .pending
    priority := priority
    metadata := command.metadata.getD ⟨none, none⟩
    createdAt := env.now
    updatedAt := env.now
    userId := command.userId }

def execute (command : CreateTaskCommand V) : Command CreateTaskResult := do
  let prompt ← finalPrompt env command
  let priority ← Prog.ofExcept (priorityOf env command.priority)
  let task := createTask env command prompt priority
  demand task.validate
  request env.save fun w => { w with tasks := w.tasks ++ [task] }
  request env.emit fun w =>
    { w with emitted := w.emitted ++ [⟨task.props.id.value, task.props.type, command.userId⟩] }
  return ⟨task.props.id.value, task.props.status, task.props.createdAt⟩

/-! ## What is accepted is valid -/

variable {env} {command : CreateTaskCommand V} {w w' : World} {r : CreateTaskResult}
  {rejects : Option CreateTaskError}

theorem on_request_ok {f : World → World} {u : Unit}
    (h : (request rejects f).on w = (.ok u, w')) : w' = f w := by
  cases rejects with
  | some e => simp [request] at h
  | none =>
    simp only [request, on_modify, Prod.mk.injEq] at h
    exact h.2.symm

section Keeps

variable {R : World → World → Prop} [Std.Refl R]

theorem keeps_ofExcept {α : Type} (x : Except CreateTaskError α) :
    Prog.Keeps R (Prog.ofExcept x : Command α) := by
  cases x with
  | ok a => exact keeps_pure
  | error e => exact keeps_throw

theorem keeps_request {f : World → World}
    (hf : ∀ w, R w (f w)) : Prog.Keeps R (request rejects f) := by
  cases rejects with
  | some e => exact keeps_throw
  | none => exact hf

theorem keeps_demand (v : ValidationResult) : Prog.Keeps R (demand v) := by
  unfold demand
  split
  · exact keeps_throw
  · exact keeps_pure

end Keeps

def SameTasks (w w' : World) : Prop := w'.tasks = w.tasks

instance : Std.Refl SameTasks := ⟨fun _ => rfl⟩

instance : IsTrans World SameTasks := ⟨fun _ _ _ h h' => h'.trans h⟩

variable {v : ValidationResult}

theorem valid_of_demand {u : Unit} (h : (demand v).on w = (.ok u, w')) : v.isValid = true := by
  unfold demand at h
  split at h
  · cases h
  · rename_i hvalid
    simpa using hvalid

theorem keeps_processTemplate (templateId : String) (vars : V) :
    Prog.Keeps SameTasks (processTemplate env templateId vars) := by
  refine Prog.Keeps.bind (keeps_ofExcept _) fun found => ?_
  cases found with
  | none => exact keeps_throw
  | some template =>
    refine Prog.Keeps.bind (keeps_demand _) fun _ => ?_
    refine Prog.Keeps.bind (keeps_ofExcept _) fun prompt => ?_
    refine Prog.Keeps.bind (keeps_request fun _ => rfl) fun _ => ?_
    exact keeps_pure

theorem keeps_finalPrompt : Prog.Keeps SameTasks (finalPrompt env command) := by
  unfold finalPrompt
  split
  · exact keeps_pure
  · split
    · exact keeps_pure
    · exact keeps_processTemplate _ _

theorem execute_ok (h : (execute env command).on w = (.ok r, w')) :
    ∃ t, w'.tasks = w.tasks ++ [t] ∧ t.Valid ∧ t.props.status = .pending ∧ t.events = [] := by
  obtain ⟨prompt, w₁, hprompt, h⟩ := on_bind_eq_ok.mp h
  obtain ⟨priority, w₂, hpriority, h⟩ := on_bind_eq_ok.mp h
  obtain ⟨_, w₃, hdemand, h⟩ := on_bind_eq_ok.mp h
  obtain ⟨_, w₄, hsave, h⟩ := on_bind_eq_ok.mp h
  obtain ⟨_, w₅, hemit, h⟩ := on_bind_eq_ok.mp h
  refine ⟨createTask env command prompt priority, ?_, valid_of_demand hdemand, rfl, rfl⟩
  have hbefore : w₃.tasks = w.tasks :=
    calc w₃.tasks = w₂.tasks := (keeps_demand (R := SameTasks) _).of_on hdemand
      _ = w₁.tasks := (keeps_ofExcept (R := SameTasks) _).of_on hpriority
      _ = w.tasks := keeps_finalPrompt.of_on hprompt
  obtain rfl : w₅ = w' := (Prod.mk.inj h).2
  obtain rfl := on_request_ok hsave
  obtain rfl := on_request_ok hemit
  exact congrArg (· ++ [createTask env command prompt priority]) hbefore

def Accepted (t : TaskEntity) : Prop :=
  ∃ (V : Type) (env : Collaborators V) (command : CreateTaskCommand V) (w w' : World)
    (r : CreateTaskResult),
    (execute env command).on w = (.ok r, w') ∧ w'.tasks = w.tasks ++ [t]

theorem Accepted.valid {t : TaskEntity} (h : Accepted t) : t.Valid := by
  obtain ⟨V, env, command, w, w', r, hrun, htasks⟩ := h
  obtain ⟨t', htasks', hvalid, -, -⟩ := execute_ok hrun
  have ht : w.tasks ++ [t] = w.tasks ++ [t'] := htasks.symm.trans htasks'
  obtain rfl : t = t' := by simpa using ht
  exact hvalid

open TaskEntity in
/-- **When an accepted task stays valid**, whatever is called on it. -/
theorem created_stays_valid_iff {t : TaskEntity} (h : Accepted t) (calls : List Invocation) :
    Always step Valid t calls ↔ Guarded step GivesAcceptablePrompt t calls :=
  valid_iff_guarded h.valid

def answering : Collaborators Unit where
  findById _ := .ok none
  incrementUsage := none
  save := none
  emit := none
  generated := ⟨"00000000-0000-4000-8000-00000000000b", by decide⟩
  now := 0
  noVariables := ()
  number := toString

def fixTheTest : CreateTaskCommand Unit := { prompt := "Fix the test", type := .debugging }

def created : TaskEntity := createTask answering fixTheTest "Fix the test" .medium

theorem accepted_created : Accepted created := by
  have hdemand : ∀ w, (demand created.validate).on w = (.ok (), w) := by
    intro w
    have hvalid : created.validate.isValid = true := by decide +kernel
    rw [demand, hvalid]
    rfl
  have hrun : (execute answering fixTheTest).on {} = (.ok ⟨created.props.id.value, .pending, 0⟩,
        { tasks := [created], emitted := [⟨created.props.id.value, .debugging, none⟩] }) := by
    have hprompt : (finalPrompt answering fixTheTest).on {} = (.ok "Fix the test", {}) := rfl
    have hpriority : Prog.on (Prog.ofExcept (priorityOf answering fixTheTest.priority) :
        Command Priority) {} = (.ok .medium, {}) := rfl
    rw [execute, on_bind_ok hprompt, on_bind_ok hpriority]
    exact on_bind_ok (hdemand _)
  exact ⟨Unit, answering, fixTheTest, {}, _, _, hrun, rfl⟩

theorem created_stays_valid_iff_started :
    Guarded TaskEntity.step TaskEntity.GivesAcceptablePrompt created
      [⟨.updatePrompt "Fix the test of the parser", 1, 1⟩, ⟨.updateStatus .inProgress, 2, 2⟩] ∧
    Always TaskEntity.step TaskEntity.Valid created
      [⟨.updatePrompt "Fix the test of the parser", 1, 1⟩, ⟨.updateStatus .inProgress, 2, 2⟩] := by
  have hguarded : Guarded TaskEntity.step TaskEntity.GivesAcceptablePrompt created
      [⟨.updatePrompt "Fix the test of the parser", 1, 1⟩, ⟨.updateStatus .inProgress, 2, 2⟩] := by
    decide +kernel
  exact ⟨hguarded, (created_stays_valid_iff accepted_created _).mpr hguarded⟩

theorem created_loses_validity : Accepted created ∧
    ((TaskEntity.updatePrompt "" 1 1).on created).1 = .ok () ∧
    ((TaskEntity.updatePrompt "" 1 1).on created).2.validate =
      ⟨false, ["Task prompt cannot be empty"]⟩ := by
  refine ⟨accepted_created, rfl, ?_⟩
  decide +kernel

/-! ## What a rejection leaves -/

def SameUsage (w w' : World) : Prop := w'.usage = w.usage

instance : Std.Refl SameUsage := ⟨fun _ => rfl⟩

instance : IsTrans World SameUsage := ⟨fun _ _ _ h h' => h'.trans h⟩

def Renders (env : Collaborators V) (command : CreateTaskCommand V) : Prop :=
  ∃ templateId template prompt, command.templateId = some templateId ∧ templateId ≠ "" ∧
    env.findById templateId = .ok (some template) ∧
    (template.validateVariables (command.templateVariables.getD env.noVariables)).isValid = true ∧
    template.renderPrompt (command.templateVariables.getD env.noVariables) = .ok prompt

theorem on_demand_valid (h : v.isValid = true) : (demand v).on w = (.ok (), w) := by
  rw [demand, h]
  rfl

theorem on_demand_invalid (h : v.isValid = false) :
    (demand v).on w = (.error (.validation v.errors), w) := by
  rw [demand, h]
  rfl

theorem usage_of_renders (hcount : env.incrementUsage = none) (h : Renders env command) :
    ((finalPrompt env command).on w).2.usage ≠ w.usage := by
  obtain ⟨templateId, template, prompt, hid, hne, hfind, hvalid, hrender⟩ := h
  have hprompt : (finalPrompt env command).on w = (.ok prompt,
      { w with usage := fun id => if id = templateId then w.usage id + 1 else w.usage id }) := by
    simp only [finalPrompt, hid, if_neg hne, processTemplate, hfind, hrender, hcount, Prog.ofExcept,
      pure_bind]
    rw [on_bind_ok (on_demand_valid hvalid)]
    rfl
  rw [hprompt]
  intro hsame
  have hone : w.usage templateId + 1 = w.usage templateId := by
    simpa using congrFun hsame templateId
  omega

theorem usage_of_not_renders (h : ¬ Renders env command) :
    SameUsage w ((finalPrompt env command).on w).2 := by
  unfold finalPrompt
  split
  · rfl
  · rename_i templateId hid
    split
    · rfl
    · rename_i hne
      unfold processTemplate
      cases hfind : env.findById templateId with
      | error e => rfl
      | ok found =>
        cases found with
        | none => rfl
        | some template =>
          simp only [Prog.ofExcept, pure_bind]
          cases hvalid : (template.validateVariables (command.templateVariables.getD
                env.noVariables)).isValid with
          | false =>
            rw [on_bind_error (on_demand_invalid hvalid)]
            rfl
          | true =>
            rw [on_bind_ok (on_demand_valid hvalid)]
            cases hrender :
                template.renderPrompt (command.templateVariables.getD env.noVariables) with
            | error e => rfl
            | ok prompt => exact absurd ⟨_, _, _, hid, hne, hfind, hvalid, hrender⟩ h

theorem usage_execute :
    ((execute env command).on w).2.usage = ((finalPrompt env command).on w).2.usage := by
  unfold execute
  rcases hprompt : (finalPrompt env command).on w with ⟨e | prompt, w₁⟩
  · rw [on_bind_error hprompt]
  · rw [on_bind_ok hprompt]
    refine Prog.Keeps.bind (R := SameUsage) (keeps_ofExcept _) (fun priority => ?_) w₁
    refine Prog.Keeps.bind (keeps_demand _) fun _ => ?_
    refine Prog.Keeps.bind (keeps_request fun _ => rfl) fun _ => ?_
    refine Prog.Keeps.bind (keeps_request fun _ => rfl) fun _ => ?_
    exact keeps_pure

theorem tasks_of_error {e : CreateTaskError} (hsave : env.save = none) (hemit : env.emit = none)
    (h : (execute env command).on w = (.error e, w')) : w'.tasks = w.tasks := by
  unfold execute at h
  rcases hprompt : (finalPrompt env command).on w with ⟨e₁ | prompt, w₁⟩
  · rw [on_bind_error hprompt] at h
    obtain ⟨-, rfl⟩ := Prod.mk.inj h
    exact keeps_finalPrompt.of_on hprompt
  rw [on_bind_ok hprompt] at h
  have hbefore : w₁.tasks = w.tasks := keeps_finalPrompt.of_on hprompt
  cases hpriority : priorityOf env command.priority with
  | error e₂ =>
    rw [hpriority] at h
    obtain ⟨-, rfl⟩ := Prod.mk.inj h
    exact hbefore
  | ok priority =>
    simp only [hpriority, Prog.ofExcept, pure_bind] at h
    cases hvalid : (createTask env command prompt priority).validate.isValid with
    | false =>
      rw [on_bind_error (on_demand_invalid hvalid)] at h
      obtain ⟨-, rfl⟩ := Prod.mk.inj h
      exact hbefore
    | true =>
      rw [on_bind_ok (on_demand_valid hvalid), hsave, hemit] at h
      obtain ⟨hok, -⟩ := Prod.mk.inj h
      cases hok

/-- **A refused command saves no task**, and the use of the template is counted iff it renders. -/
theorem rejection_counts_iff {V : Type} (env : Collaborators V) (command : CreateTaskCommand V)
    (w w' : World) (e : CreateTaskError) (hcount : env.incrementUsage = none)
    (hsave : env.save = none) (hemit : env.emit = none)
    (h : (execute env command).on w = (.error e, w')) :
    w'.tasks = w.tasks ∧ (w'.usage = w.usage ↔ ¬ Renders env command) := by
  refine ⟨tasks_of_error hsave hemit h, ?_⟩
  have husage : w'.usage = ((finalPrompt env command).on w).2.usage := by
    rw [← usage_execute, h]
  rw [husage]
  constructor
  · intro hsame hrenders
    exact usage_of_renders hcount hrenders hsame
  · exact usage_of_not_renders

def greeting : Template Unit := ⟨fun _ => ⟨true, []⟩, fun _ => .ok "Say hello"⟩

def knowing : Collaborators Unit :=
  { answering with findById := fun id => .ok (if id = "greeting" then some greeting else none) }

def ofTemplate (templateId : String) (priority : Rat) : CreateTaskCommand Unit :=
  { prompt := "", type := .documentation, priority := some priority, templateId := some templateId }

theorem rejection_counts_iff_unknown : (execute knowing (ofTemplate "farewell" 2)).on {} =
      (.error (.templateNotFound "farewell"), {}) ∧
    ¬ Renders knowing (ofTemplate "farewell" 2) := by
  have hrun : (execute knowing (ofTemplate "farewell" 2)).on {} =
      (.error (.templateNotFound "farewell"), {}) := rfl
  exact ⟨hrun, (rejection_counts_iff _ _ _ _ _ rfl rfl rfl hrun).2.mp rfl⟩

theorem refused_and_counted : ((execute knowing (ofTemplate "greeting" 5)).on {}).1 =
      .error (.plain "Invalid priority value: 5") ∧
    ((execute knowing (ofTemplate "greeting" 5)).on {}).2.tasks = [] ∧
    ((execute knowing (ofTemplate "greeting" 5)).on {}).2.usage "greeting" = 1 := by
  refine ⟨?_, ?_, ?_⟩ <;> decide +kernel

end Bridge.UseCases.CreateTask
