import Bridge.Domain.TaskEvents
import Bridge.Lib.OrderedMap
import Mathlib.Data.List.Infix

/-!
# `MockTaskRepository.findAll`

The stored tasks are filtered, sorted and cut into pages. What is cut does not depend on the page
that is asked for, so the pages are those of one list.
-/

namespace Bridge.Repositories.Tasks

open Domain Lib List

structure TaskFilter where
  status : Option (List TaskStatus) := none
  type : Option (List TaskType) := none
  priority : Option (List Priority) := none
  tags : Option (List String) := none
  createdAfter : Option Nat := none
  createdBefore : Option Nat := none
  search : Option String := none

inductive SortField
  | createdAt
  | updatedAt
  | priority
  | status

structure TaskSort where
  field : SortField
  ascending : Bool

structure Pagination where
  page : Int
  limit : Int

/-- The number of pages is `NaN` if nothing is cut and there is nothing to cut. -/
structure PaginatedResult where
  items : List TaskEntity
  total : Nat
  page : Nat
  totalPages : Option Nat
  hasNext : Bool
  hasPrevious : Bool

variable (lower : String → List Char) (localeCompare : TaskStatus → TaskStatus → Int)

def applyFilter (filter : TaskFilter) (tasks : List TaskEntity) : List TaskEntity :=
  tasks |> narrow filter.status (fun statuses t => statuses.contains t.props.status)
    |> narrow filter.type (fun types t => types.contains t.props.type)
    |> narrow filter.priority (fun priorities t => priorities.any fun p => p.value ==
      t.props.priority.value)
    |> narrow filter.tags (fun tags t => tags.all fun tag => t.props.metadata.tags.any
      (·.contains tag))
    |> narrow filter.createdAfter (fun time t => decide (t.props.createdAt ≥ time))
    |> narrow filter.createdBefore (fun time t => decide (t.props.createdAt ≤ time))
    |> narrow filter.search (fun text t => decide (lower text <:+: lower t.props.prompt))

def compareBy (field : SortField) (a b : TaskProps) : Int :=
  match field with
  | .createdAt => a.createdAt - b.createdAt
  | .updatedAt => a.updatedAt - b.updatedAt
  | .priority => a.priority.value - b.priority.value
  | .status => localeCompare a.status b.status

/-- `sort` is stable. Without a sort order the newest task comes first. -/
def applySort (sort : Option TaskSort) (tasks : List TaskEntity) : List TaskEntity :=
  let sort := sort.getD ⟨.createdAt, false⟩
  tasks.mergeSort fun a b =>
    let comparison := compareBy localeCompare sort.field a.props b.props
    decide ((if sort.ascending then comparison else -comparison) ≤ 0)

def paginate (tasks : List TaskEntity) (pagination : Option Pagination) : PaginatedResult :=
  let total := tasks.length
  let page := (pagination.map fun p => (max 1 p.page).toNat).getD 1
  let limit := (pagination.map fun p => (max 1 p.limit).toNat).getD total
  let startIndex := (page - 1) * limit
  let items := if pagination.isSome then (tasks.drop startIndex).take limit else tasks
  let totalPages := if limit = 0 then none else some ((total + limit - 1) / limit)
  ⟨items, total, page, totalPages, totalPages.any fun n => decide (page < n), decide (page > 1)⟩

def findAll (tasks : List TaskEntity) (filter : Option TaskFilter) (sort : Option TaskSort)
    (pagination : Option Pagination) : PaginatedResult :=
  let filtered := (filter.map fun f => applyFilter lower f tasks).getD tasks
  paginate (applySort localeCompare sort filtered) pagination

theorem flatMap_pages {α : Type} (l : List α) (limit n : Nat) :
    ((range n).flatMap fun i => (l.drop (i * limit)).take limit) = l.take (n * limit) := by
  induction n with
  | zero => simp
  | succ n ih => rw [range_succ, flatMap_append, ih, Nat.succ_mul, take_add]; simp

section Queries

variable (tasks : List TaskEntity)

/-- `Math.ceil(total / limit)` -/
def pageCount (limit : Nat) : Nat := (tasks.length + limit - 1) / limit

def pageOf (page limit : Nat) : PaginatedResult :=
  ⟨(tasks.drop ((page - 1) * limit)).take limit, tasks.length, page, some (pageCount tasks limit),
    decide (page < pageCount tasks limit), decide (page > 1)⟩

theorem paginate_eq {page limit : Nat} (hpage : 1 ≤ page) (hlimit : 1 ≤ limit) :
    paginate tasks (some ⟨page, limit⟩) = pageOf tasks page limit := by
  have hmax : ∀ n : Nat, 1 ≤ n → (max 1 (n : Int)).toNat = n := by omega
  simp only [paginate, Option.map_some, Option.getD_some, hmax page hpage, hmax limit hlimit,
    Option.isSome_some, if_true, if_neg (Nat.ne_of_gt hlimit)]
  rfl

theorem length_le_pages {limit : Nat} (hlimit : 1 ≤ limit) :
    tasks.length ≤ pageCount tasks limit * limit := by
  have hlt := Nat.lt_mul_div_succ (tasks.length + limit - 1) hlimit
  rw [Nat.mul_succ, Nat.mul_comm] at hlt
  unfold pageCount
  omega

end Queries

/-- **The pages tile the list**, for each size. -/
theorem pages_tile (lower : String → List Char) (localeCompare : TaskStatus → TaskStatus → Int)
    (tasks : List TaskEntity) (filter : Option TaskFilter) (sort : Option TaskSort) (limit : Int)
    (hlimit : 1 ≤ limit) :
    let pageAt := fun page : Int => findAll lower localeCompare tasks filter sort
      (some ⟨page, limit⟩)
    ∃ totalPages : Nat, (range totalPages).flatMap (fun i : Nat => (pageAt ((i : Int) + 1)).items) =
        (findAll lower localeCompare tasks filter sort none).items ∧
      ∀ page : Int, 1 ≤ page → (pageAt page).totalPages = some totalPages ∧
        ((pageAt page).hasNext = true ↔ page < totalPages) ∧
        ((pageAt page).hasPrevious = true ↔ 1 < page) ∧
        (totalPages < page → (pageAt page).items = []) := by
  intro pageAt
  obtain ⟨size, rfl⟩ := Int.eq_ofNat_of_zero_le (by omega : 0 ≤ limit)
  have hsize : 1 ≤ size := by omega
  let sorted := applySort localeCompare sort
    ((filter.map fun f => applyFilter lower f tasks).getD tasks)
  have hpage : ∀ n : Nat, 1 ≤ n → pageAt n = pageOf sorted n size := fun n hn =>
    paginate_eq sorted hn hsize
  have hcover := length_le_pages sorted hsize
  refine ⟨pageCount sorted size, ?_, ?_⟩
  · have hitems : ∀ i : Nat, (pageAt (i + 1)).items = (sorted.drop (i * size)).take size := by
      intro i
      have h := hpage (i + 1) (Nat.succ_pos i)
      push_cast at h
      rw [h]
      rfl
    simp only [hitems]
    rw [flatMap_pages]
    exact take_of_length_le hcover
  · intro page hone
    obtain ⟨n, rfl⟩ := Int.eq_ofNat_of_zero_le (by omega : 0 ≤ page)
    rw [hpage n (by omega)]
    refine ⟨rfl, ?_, ?_, ?_⟩
    · simp [pageOf]
    · simp only [pageOf, decide_eq_true_eq]
      omega
    · intro hbeyond
      have hlast : pageCount sorted size ≤ n - 1 := by omega
      have hstart := Nat.le_trans hcover (Nat.mul_le_mul_right size hlast)
      simp [pageOf, drop_eq_nil_of_le hstart, take_nil]

def threeTasks : List TaskEntity := replicate 3 (.new TaskEntity.freshProps)

theorem pages_tile_threeTasks : ∃ totalPages : Nat, (range totalPages).flatMap
    (fun i : Nat => (findAll String.toList (fun _ _ => 0) threeTasks none none
      (some ⟨(i : Int) + 1, 2⟩)).items) =
      (findAll String.toList (fun _ _ => 0) threeTasks none none none).items := by
  obtain ⟨n, h, -⟩ := pages_tile String.toList (fun _ _ => 0) threeTasks none none 2 (by omega)
  exact ⟨n, h⟩

end Bridge.Repositories.Tasks
