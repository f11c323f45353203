import Bridge.Domain.ResultEntity
import Bridge.Lib.OrderedMap
import Bridge.Repositories.Tasks

/-!
# `MockResultRepository.findAll`

A filter has eight fields, and three of them are read. A query by one of the others finds what a
query without it finds: `findValidatedResults` all results, and `getAdapterPerformance` those of all
times. -/

namespace Bridge.Repositories.Results

open Lib Domain Tasks List

structure ResultFilter where
  taskId : Option TaskId := none
  adapter : Option (List AdapterType) := none
  isSuccess : Option Bool := none
  hasValidation : Option Bool := none
  executionTimeMin : Option Rat := none
  executionTimeMax : Option Rat := none
  createdAfter : Option Int := none
  createdBefore : Option Int := none

inductive SortField
  | createdAt
  | executionTime
  | qualityScore

def SortField.key (field : SortField) (r : ResultEntity) : Rat :=
  match field with
  | .createdAt => r.createdAt
  | .executionTime => r.executionTime
  | .qualityScore => r.getQualityScore

abbrev Repository := OrderedMap TaskId (List ResultEntity)

def stored (s : Repository) : List ResultEntity := s.values.flatten

section Filters

variable (filter : ResultFilter) (r : ResultEntity)

def applyFilter (results : List ResultEntity) : List ResultEntity :=
  results |> narrow filter.taskId (fun id r => r.taskId == id)
    |> narrow filter.adapter (fun adapters r => adapters.contains r.adapter)
    |> narrow filter.isSuccess (fun success r => r.isSuccess == success)

/-- The sort order is a field and whether it ascends; a limit of 0 is none. -/
def findAll (s : Repository) (filter : Option ResultFilter) (sort : Option (SortField × Bool))
    (limit : Option Nat) : List ResultEntity :=
  let results := (filter.map fun f => applyFilter f (stored s)).getD (stored s)
  let (field, ascending) := sort.getD (.createdAt, false)
  let sorted := results.mergeSort fun a b =>
    decide (if ascending then field.key a ≤ field.key b else field.key b ≤ field.key a)
  match limit.filter (· ≠ 0) with
  | none => sorted
  | some n => sorted.take n

def findValidatedResults (s : Repository) : List ResultEntity :=
  findAll s (some { hasValidation := some true }) none none

structure Performance where
  totalTasks : Nat
  successRate : Rat
  averageExecutionTime : Rat
  averageQualityScore : Rat
  errorRate : Rat

def getAdapterPerformance (s : Repository) (adapter : AdapterType)
    (timeRange : Option (Int × Int)) : Performance :=
  let results := findAll s (some { adapter := some [adapter], createdAfter := timeRange.map (·.1),
                                   createdBefore := timeRange.map (·.2) })
    none none
  let successful := (results.filter (·.isSuccess)).length
  let perResult := fun x : Rat => if results.length > 0 then x / results.length else 0
  ⟨results.length, perResult successful, perResult (results.map (·.executionTime)).sum,
    perResult (results.map (·.getQualityScore)).sum, perResult (results.length - successful)⟩

/-! ## What a filter asks for -/

def given {α : Type} (value : Option α) (p : α → Bool) : Bool := value.all p

def IsRead : Bool :=
  given filter.taskId (fun id => r.taskId == id) &&
    (given filter.adapter fun adapters => adapters.contains r.adapter) &&
    given filter.isSuccess fun success => r.isSuccess == success

def validated : Bool := r.metadata.validatedBy.isSome

def IsUnread : Bool :=
  given filter.hasValidation (fun b => validated r == b) &&
    given filter.executionTimeMin (fun time => decide (time ≤ r.executionTime)) &&
    given filter.executionTimeMax (fun time => decide (r.executionTime ≤ time)) &&
    given filter.createdAfter (fun time => decide (time ≤ r.createdAt)) &&
    given filter.createdBefore fun time => decide (r.createdAt ≤ time)

def Satisfies : Bool :=
  IsRead filter r && IsUnread filter r

end Filters

section FindAll

variable {s : Repository} {filter : ResultFilter}

theorem findAll_perm : (findAll s (some filter) none none).Perm
    ((stored s).filter (IsRead filter)) := by
  have hfilter : applyFilter filter (stored s) = (stored s).filter (IsRead filter) := by
    simp only [applyFilter, narrow_eq_filter, filter_filter]
    refine filter_congr fun r _ => ?_
    simp [IsRead, given, Bool.and_comm]
  rw [← hfilter]
  exact mergeSort_perm _ _

theorem length_filter_and_iff {α : Type} {l : List α} {p q : α → Bool} :
    (l.filter p).length = (l.filter fun a => p a && q a).length ↔ ∀ a ∈ l, p a = true →
    q a = true := by
  have hsub : l.filter (fun a => p a && q a) = (l.filter p).filter q := by
    rw [filter_filter]
    exact filter_congr fun a _ => Bool.and_comm _ _
  rw [hsub, eq_comm, length_filter_eq_length_iff]
  simp

theorem filter_and_eq {α : Type} {l : List α} {p q : α → Bool}
    (h : ∀ a ∈ l, p a = true → q a = true) : (l.filter fun a => p a && q a) = l.filter p := by
  refine filter_congr fun a ha => ?_
  cases hp : p a with
  | false => rfl
  | true => rw [h a ha hp]; rfl

/-- **A query finds what it asks for** iff what it finds meets the fields it does not read. -/
theorem findAll_exact_iff (s : Repository) (filter : ResultFilter) :
    ((findAll s (some filter) none none).Perm ((stored s).filter (Satisfies filter)) ↔
      ∀ r ∈ stored s, IsRead filter r = true → IsUnread filter r = true) ∧
    ((∀ r ∈ findValidatedResults s, validated r = true) ↔ ∀ r ∈ stored s, validated r = true) ∧
    ∀ (adapter : AdapterType) (start stop : Int),
      (getAdapterPerformance s adapter (some (start, stop))).totalTasks =
          ((stored s).filter fun r => decide (r.adapter = adapter) &&
            (decide (start ≤ r.createdAt) && decide (r.createdAt ≤ stop))).length ↔
        ∀ r ∈ stored s, r.adapter = adapter → start ≤ r.createdAt ∧ r.createdAt ≤ stop := by
  refine ⟨?_, ?_, ?_⟩
  · constructor
    · intro h
      exact length_filter_and_iff.mp (findAll_perm.length_eq.symm.trans h.length_eq)
    · intro h
      exact findAll_perm.trans (.of_eq (filter_and_eq h).symm)
  · simp only [findValidatedResults, findAll_perm.mem_iff, IsRead, given, mem_filter,
      Option.all_none, Bool.and_self, and_true]
  · intro adapter start stop
    have htotal : (getAdapterPerformance s adapter (some (start, stop))).totalTasks =
        ((stored s).filter fun r => decide (r.adapter = adapter)).length := by
      refine findAll_perm.length_eq.trans (congrArg length (filter_congr fun r _ => ?_))
      simp [IsRead, given]
    rw [htotal, length_filter_and_iff]
    simp

def sampleResult (createdAt : Int) : ResultEntity where
  id := []
  taskId := TaskEntity.freshProps.id
  output := []
  adapter := .claude
  metadata := { executionTime := 1 }
  createdAt := createdAt

def sampleRepository : Repository :=
  OrderedMap.empty.set TaskEntity.freshProps.id [sampleResult 0, sampleResult 100]

/-- **A result that is not validated is found among the validated ones**, and an old one counts as
recent. -/
theorem unread_fields : (∃ r ∈ findValidatedResults sampleRepository, validated r = false) ∧
    (getAdapterPerformance sampleRepository .claude (some (50, 150))).totalTasks = 2 := by
  refine ⟨⟨sampleResult 0, findAll_perm.mem_iff.mpr ?_, rfl⟩, findAll_perm.length_eq.trans ?_⟩ <;>
    decide +kernel

end FindAll

end Bridge.Repositories.Results
