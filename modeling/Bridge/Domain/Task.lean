import Mathlib.Data.List.Basic

/-!
# Tasks and results

The two entities the use cases work on, as far as they work on them: the status of a `Task` and its
events, and whether a `Result` is one of success.
-/

namespace Bridge.Domain

open List

/-! ## Value objects -/

/-- `/^[0-9a-f]{8}-[0-9a-f]{4}-4[0-9a-f]{3}-[89ab][0-9a-f]{3}-[0-9a-f]{12}$/i`, one test for each
character. -/
def uuidRegex : List (Char → Bool) :=
  replicate 8 hexDigit ++ [(· == '-')] ++ replicate 4 hexDigit ++ [(· == '-'), (· == '4')] ++
    replicate 3 hexDigit ++ [(· == '-'), ['8', '9', 'a', 'b', 'A', 'B'].contains] ++
    replicate 3 hexDigit ++ [(· == '-')] ++ replicate 12 hexDigit
where
  hexDigit (c : Char) : Bool :=
    c.isDigit || (decide ('a' ≤ c) && decide (c ≤ 'f')) || (decide ('A' ≤ c) && decide (c ≤ 'F'))

def matchesAll : List (Char → Bool) → List Char → Bool
  | [], [] => true
  | p :: ps, c :: cs => p c && matchesAll ps cs
  | _, _ => false

structure TaskId where
  value : String
  isValid : matchesAll uuidRegex value.toList = true
  deriving DecidableEq, Repr

def TaskId.fromString (value : String) : Except String TaskId :=
  if h : matchesAll uuidRegex value.toList = true then .ok ⟨value, h⟩
  else .error ("Invalid TaskId: " ++ value)

theorem TaskId.fromString_ok {value : String} {id : TaskId} :
    TaskId.fromString value = .ok id ↔ id.value = value := by
  unfold TaskId.fromString
  constructor
  · intro h
    split at h <;> cases h
    rfl
  · rintro rfl
    rw [dif_pos id.isValid]

inductive TaskStatus where
  | pending
  | inProgress
  | completed
  | failed
  | cancelled
  | validated
  deriving DecidableEq, Repr

def TaskStatus.text : TaskStatus → String
  | .pending => "PENDING"
  | .inProgress => "IN_PROGRESS"
  | .completed => "COMPLETED"
  | .failed => "FAILED"
  | .cancelled => "CANCELLED"
  | .validated => "VALIDATED"

inductive TaskType where
  | codeGeneration
  | codeReview
  | debugging
  | refactoring
  | documentation
  | testing
  | architecture
  | search
  | multimodal
  | validation
  deriving DecidableEq, Repr

inductive AdapterType where
  | claude
  | gemini
  | openai
  | cohere
  | huggingface
  | localModel
  deriving DecidableEq, Repr

def AdapterType.text : AdapterType → String
  | .claude => "CLAUDE"
  | .gemini => "GEMINI"
  | .openai => "OPENAI"
  | .cohere => "COHERE"
  | .huggingface => "HUGGINGFACE"
  | .localModel => "LOCAL"

/-! ## Tasks -/

/-- The status event; `eventVersion` counts the events of the task. -/
structure StatusUpdated where
  oldStatus : TaskStatus
  newStatus : TaskStatus
  updatedAt : Nat
  eventVersion : Nat
  deriving DecidableEq, Repr

structure Task where
  id : TaskId
  prompt : String
  type : TaskType
  status : TaskStatus
  tags : List String
  userId : Option String
  createdAt : Nat
  updatedAt : Nat
  events : List StatusUpdated
  deriving DecidableEq, Repr

/-- `allowedTransitions`. -/
def TaskStatus.allowed : TaskStatus → List TaskStatus
  | .pending => [.inProgress, .cancelled]
  | .inProgress => [.completed, .failed, .cancelled]
  | .completed => [.validated]
  | .failed => [.pending]
  | .cancelled => []
  | .validated => []

namespace Task

def canTransitionTo (t : Task) (newStatus : TaskStatus) : Bool :=
  t.status.allowed.contains newStatus

def updateStatus (t : Task) (newStatus : TaskStatus) (now : Nat) : Except String Task :=
  if t.canTransitionTo newStatus then
    .ok { t with
      status := newStatus
      updatedAt := now
      events := t.events ++ [⟨t.status, newStatus, now, t.events.length + 1⟩] }
  else .error ("Cannot transition from " ++ t.status.text ++ " to " ++ newStatus.text)

variable {st : TaskStatus}

theorem updateStatus_ok {t t' : Task} {now : Nat}
    (h : t.updateStatus st now = .ok t') : t.canTransitionTo st = true ∧ t'.status = st := by
  simp only [updateStatus] at h
  split at h <;> cases h
  exact ⟨‹_›, rfl⟩

theorem updateStatus_id {t t' : Task} {now : Nat}
    (h : t.updateStatus st now = .ok t') : t'.id = t.id := by
  simp only [updateStatus] at h
  split at h <;> cases h
  rfl

theorem updateStatus_of_canTransitionTo {t : Task} (now : Nat)
    (h : t.canTransitionTo st = true) : ∃ t', t.updateStatus st now = .ok t' ∧ t'.status = st := by
  refine ⟨_, if_pos h, rfl⟩

theorem canTransitionTo_inProgress {t : Task} :
    t.canTransitionTo .inProgress = true ↔ t.status = .pending := by
  cases hst : t.status <;> simp [canTransitionTo, hst, TaskStatus.allowed]

theorem canTransitionTo_end {t : Task} {b : Bool} :
    t.canTransitionTo (if b then .completed else .failed) = true ↔ t.status = .inProgress := by
  cases hst : t.status <;> cases b <;> simp [canTransitionTo, hst, TaskStatus.allowed]

end Task

/-- What the use cases read of a `Result`. An error that is no text (`undefined`) is `none`. -/
structure Result where
  output : String
  adapter : AdapterType
  error : Option String
  retryCount : Option Nat
  deriving DecidableEq, Repr

namespace Result

def createSuccess (output : String) (adapter : AdapterType) (retryCount : Option Nat) : Result :=
  ⟨output, adapter, none, retryCount⟩

def createError (error : Option String) (adapter : AdapterType) : Result :=
  ⟨"", adapter, error, none⟩

/-- `!this.props.error`: the empty text counts as no error. -/
def isSuccess (r : Result) : Bool :=
  match r.error with
  | none => true
  | some e => e == ""

/-- An error result is one of failure if there is a text in it. -/
@[simp] theorem isSuccess_createError {e : Option String} {a : AdapterType} :
    (createError e a).isSuccess = true ↔ e = none ∨ e = some "" := by
  cases e <;> simp [isSuccess, createError]

end Result

end Bridge.Domain
