import Mathlib.Algebra.Order.Field.Rat
import Bridge.Domain.Task
import Bridge.Lib.Rounding
import Bridge.Lib.Thrown

/-!
# Results, as they are stored

A `Result` with all that is read of it. Whether it is one of success is not stored: `isSuccess` asks
whether there is an `error`, and `createError` is given whatever `message` an error has.
-/

namespace Bridge.Domain

open Lib Utf16

structure ResultMetadata where
  -- in milliseconds
  executionTime : Rat
  tokensUsed : Option Rat := none
  model : Option Units := none
  retryCount : Option Rat := none
  validatedBy : Option AdapterType := none
  validationScore : Option Rat := none
  deriving DecidableEq

/-- An object of the class `Result`. -/
structure ResultEntity where
  id : Units
  taskId : TaskId
  output : Units
  adapter : AdapterType
  metadata : ResultMetadata
  createdAt : Int
  error : Message := .missing
  deriving DecidableEq

namespace ResultEntity

def isSuccess (r : ResultEntity) : Bool := !r.error.truthy

def executionTime (r : ResultEntity) : Rat := r.metadata.executionTime

/-- `setValidation`; the result as it is afterwards. -/
def setValidation (r : ResultEntity) (validatedBy : AdapterType) (score : Rat) :
    Except Thrown ResultEntity :=
  if score < 0 ∨ 1 < score then .error (.error "Validation score must be between 0 and 1")
  else .ok { r with metadata :=
    { r.metadata with validatedBy := some validatedBy, validationScore := some score } }

/-- The score in the arithmetic `a`: every operation, and the literal `0.1`, is rounded. -/
def getQualityScore (r : ResultEntity) (a : Rounding := .exact) : Rat :=
  let score : Rat := 1
  -- a count of zero is no count, and a score of zero no score
  let score :=
    match r.metadata.retryCount.filter (· ≠ 0) with
    | some retryCount => a.round (score - a.round (a.round (1 / 10) * retryCount))
    | none => score
  let score :=
    match r.metadata.validationScore.filter (· ≠ 0) with
    | some validationScore => a.round (a.round (score + validationScore) / 2)
    | none => score
  let score := if 10000 < r.metadata.executionTime then a.round (score - a.round (1 / 10)) else
    score
  max 0 (min 1 score)

/-- What a result is made with, beside its contents: `Date.now()` and the random part of its id. -/
structure Stamp where
  id : Units
  createdAt : Int

def createSuccess (stamp : Stamp) (taskId : TaskId) (output : Units) (adapter : AdapterType)
    (metadata : ResultMetadata) : ResultEntity where
  id := stamp.id
  taskId := taskId
  output := output
  adapter := adapter
  metadata := metadata
  createdAt := stamp.createdAt

def createError (stamp : Stamp) (taskId : TaskId) (error : Message) (adapter : AdapterType)
    (executionTime : Rat) : ResultEntity where
  id := stamp.id
  taskId := taskId
  output := []
  adapter := adapter
  metadata := { executionTime := executionTime }
  createdAt := stamp.createdAt
  error := error

end ResultEntity

end Bridge.Domain
