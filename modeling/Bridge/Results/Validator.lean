import Mathlib.Data.Finset.Card
import Mathlib.Data.Rat.Cast.Order
import Bridge.Domain.ResultEntity
import Bridge.Domain.TaskEvents
import Bridge.Results.Extraction

/-!
# `ResultValidator`

`validate` weighs the criteria, and `crossValidate` compares two results of different adapters: the
words they share, and where they differ. It mentions the first and the second result in turn, and
comes to the same for the two in the other order, but for the order of what it says:
`compared_swap`.

Not modelled: the recommendations of a report, which no use case reads.
-/

namespace Bridge.Results

open Lib Utf16 Domain List

/-- How texts are made: `toLowerCase`, and what a number is as a text. -/
structure Format where
  lowerCase : LowerCase
  number : Rat → Units
  /-- `toFixed(1)` -/
  fixed : Rat → Units

/-! ## Criteria -/

structure ValidationCriteria where
  name : String
  weight : Rat
  validate : ResultEntity → TaskEntity → Rat

section Criteria

variable (f : Format)

def completeness : ValidationCriteria where
  name := "completeness"
  weight := 1 / 4
  validate result task :=
    if result.error.truthy then 0
    else
      let outputLength : Rat := result.output.length
      let promptLength : Rat := (ofString task.props.prompt).length
      if outputLength < promptLength * (1 / 2) then 1 / 2
      else if promptLength * 3 < outputLength then 9 / 10
      else 1

def relevance : ValidationCriteria where
  name := "relevance"
  weight := 3 / 10
  validate result task :=
    if result.error.truthy then 0
    else
      let promptWords := splitSpaces (f.lowerCase.lower (ofString task.props.prompt))
      let outputWords := splitSpaces (f.lowerCase.lower result.output)
      let found := promptWords.countP fun word =>
        decide (3 < word.length) && outputWords.contains word
      min 1 (found / (promptWords.length * (3 / 10)))

def codeTaskTypes : List TaskType := [.codeGeneration, .codeReview, .debugging, .refactoring]

def format : ValidationCriteria where
  name := "format"
  weight := 1 / 5
  validate result task :=
    if result.error.truthy then 0
    else if !codeTaskTypes.contains task.props.type then 1
    else if codeBlocks result.output ≠ [] then 1
    else if hasIndentation result.output then 4 / 5
    else 1 / 2

def performance : ValidationCriteria where
  name := "performance"
  weight := 3 / 20
  validate result _ :=
    if result.executionTime < 2000 then 1
    else if result.executionTime < 5000 then 4 / 5
    else if result.executionTime < 10000 then 3 / 5
    else if result.executionTime < 30000 then 2 / 5
    else 1 / 5

def errorFree : ValidationCriteria where
  name := "error-free"
  weight := 1 / 10
  validate result _ := if result.error.truthy then 0 else 1

def defaultCriteria : List ValidationCriteria :=
  [completeness, relevance f, format, performance, errorFree]

end Criteria

structure CriterionResult where
  name : String
  score : Rat
  passed : Bool
  deriving DecidableEq

structure ValidationReport where
  isValid : Bool
  score : Rat
  criteria : List CriterionResult
  deriving DecidableEq

def validate (criteria : List ValidationCriteria) (result : ResultEntity) (task : TaskEntity) :
    ValidationReport :=
  let totalScore := (criteria.map fun c => c.validate result task * c.weight).sum
  let totalWeight := (criteria.map ValidationCriteria.weight).sum
  let finalScore := if 0 < totalWeight then totalScore / totalWeight else 0
  { isValid := decide (7 / 10 ≤ finalScore)
    score := finalScore
    criteria := criteria.map fun c =>
      ⟨c.name, c.validate result task, decide (3 / 5 ≤ c.validate result task)⟩ }

/-! ## Two results -/

section CrossValidate

variable (f : Format)

def calculateSimilarity (output1 output2 : Units) : Rat :=
  let words1 := words f.lowerCase output1
  let words2 := words f.lowerCase output2
  (words1 ∩ words2).card / (words1 ∪ words2).card

def uniqueLines (output1 output2 : Units) : Nat :=
  ((splitLines output1).toFinset \ (splitLines output2).toFinset).card

def uniqueLinesText (result : ResultEntity) (unique : Nat) : Units :=
  ofString result.adapter.text ++ ofString " has " ++ f.number unique ++ ofString " unique lines"

section Pairs

variable (result1 result2 : ResultEntity)

def commonDifferences : List Units :=
  let lengthDiff : Rat := |(result1.output.length : Rat) - result2.output.length|
  let timeDiff := |result1.executionTime - result2.executionTime|
  (if 100 < lengthDiff then
    [ofString "Output length differs by " ++ f.number lengthDiff ++ ofString " characters"] else
      []) ++
  if 5000 < timeDiff then
    [ofString "Execution time differs by " ++ f.number timeDiff ++ ofString "ms"] else []

def ownDifferences : List Units :=
  if 5 < uniqueLines result1.output result2.output then
    [uniqueLinesText f result1 (uniqueLines result1.output result2.output)] else []

def identifyDifferences : List Units :=
  commonDifferences f result1 result2 ++ ownDifferences f result1 result2 ++
    ownDifferences f result2 result1

structure CrossValidation where
  consensus : Bool
  similarity : Rat
  differences : List Units
  deriving DecidableEq

def compared : CrossValidation :=
  let similarity := calculateSimilarity f result1.output result2.output
  let differences := identifyDifferences f result1 result2
  { consensus := decide (4 / 5 < similarity) && decide (differences.length < 3)
    similarity := similarity
    differences := differences }

def sameAdapter : Thrown := .error "Cross-validation requires results from different adapters"

def crossValidate : Except Thrown CrossValidation :=
  if result1.adapter = result2.adapter then .error sameAdapter else .ok (compared f result1 result2)

theorem calculateSimilarity_comm (output1 output2 : Units) :
    calculateSimilarity f output1 output2 = calculateSimilarity f output2 output1 := by
  simp [calculateSimilarity, Finset.inter_comm, Finset.union_comm]

theorem commonDifferences_comm :
    commonDifferences f result1 result2 = commonDifferences f result2 result1 := by
  simp [commonDifferences, abs_sub_comm]

theorem identifyDifferences_perm :
    (identifyDifferences f result1 result2).Perm (identifyDifferences f result2 result1) := by
  unfold identifyDifferences
  rw [commonDifferences_comm, append_assoc, append_assoc]
  exact List.Perm.append_left _ perm_append_comm

theorem compared_swap :
    (compared f result1 result2).consensus = (compared f result2 result1).consensus ∧
    (compared f result1 result2).similarity = (compared f result2 result1).similarity ∧
    (compared f result1 result2).differences.toFinset =
      (compared f result2 result1).differences.toFinset := by
  have hperm := identifyDifferences_perm f result1 result2
  refine ⟨?_, calculateSimilarity_comm f _ _, toFinset_eq_of_perm _ _ hperm⟩
  simp [compared, calculateSimilarity_comm f result1.output, hperm.length_eq]

end Pairs

end CrossValidate

end Bridge.Results
