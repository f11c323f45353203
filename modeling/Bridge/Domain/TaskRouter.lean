import Bridge.Domain.Validity
import Bridge.Lib.StableSort

/-!
# Routing

`TaskRouter` keeps a list of strategies and asks them in turn: sorted by priority after each that is
added, and filtered by name when one is removed. Before the strategies comes the adapter that the
task prefers, if it can execute the task; after them, the adapter with the best score for the type
of the task.
-/

namespace Bridge.Domain

open Lib List

/-! ## What the router is given -/

structure RoutingStrategy where
  name : String
  priority : ℚ
  canHandle : TaskEntity → Bool
  selectAdapter : TaskEntity → Option AdapterType

/-- A score; `none` is `NaN`. -/
abbrev Score := Option ℚ

structure RoutingRecommendation where
  adapter : AdapterType
  confidence : Score
  reason : String
  deriving DecidableEq

/-- `constraints?.preferredAdapter` -/
def TaskProps.preferredAdapter (p : TaskProps) : Option AdapterType :=
  p.metadata.constraints.bind Constraints.preferredAdapter

/-- `task.type.toLowerCase()` -/
def TaskType.lowerText : TaskType → String
  | .codeGeneration => "code_generation"
  | .codeReview => "code_review"
  | .debugging => "debugging"
  | .refactoring => "refactoring"
  | .documentation => "documentation"
  | .testing => "testing"
  | .architecture => "architecture"
  | .search => "search"
  | .multimodal => "multimodal"
  | .validation => "validation"

/-- The keys of `AdapterCapabilities`, in their order. -/
def AdapterType.all : List AdapterType :=
  [.claude, .gemini, .openai, .cohere, .huggingface, .localModel]

/-- `AdapterCapabilities` -/
def AdapterType.capabilities : AdapterType → List String
  | .claude => ["code_generation", "code_review", "debugging", "refactoring",
    "documentation", "testing",
      "architecture", "validation", "complex_reasoning", "nuanced_analysis"]
  | .gemini => ["code_generation", "code_review", "debugging", "documentation",
      "architecture", "search", "multimodal", "web_search", "image_analysis", "pdf_processing"]
  | .openai => ["code_generation", "code_review", "debugging", "documentation", "chat",
      "function_calling", "vision", "embeddings"]
  | .cohere => ["code_generation", "text_generation", "summarization", "classification",
      "embeddings", "reranking"]
  | .huggingface => ["code_generation", "text_generation", "translation", "summarization",
      "question_answering", "image_generation", "embeddings"]
  | .localModel => ["code_generation", "text_generation", "privacy", "customization", "offline"]

def getPreferredAdapterForTask : TaskType → Option AdapterType
  | .refactoring => some .claude
  | .validation => some .claude
  | .testing => some .claude
  | .search => some .gemini
  | .multimodal => some .gemini
  | _ => none

/-- The object `scores`, with its keys in their order. -/
abbrev Scores := List (AdapterType × Score)

/-- `scores[adapter] += x`; an adapter that has no score yet gets `undefined + x`. -/
def addScore (scores : Scores) (adapter : AdapterType) (x : ℚ) : Scores :=
  if (scores.lookup adapter).isSome then
    scores.map fun e => if e.1 = adapter then (e.1, e.2.map (· + x)) else e
  else scores ++ [(adapter, none)]

def scoreAdapter (task : TaskEntity) (scores : Scores) (adapter : AdapterType) : Scores :=
  let scores := if task.canBeExecutedBy adapter then addScore scores adapter (5 / 10) else scores
  if adapter.capabilities.contains task.props.type.lowerText then addScore scores adapter
    (3 / 10) else scores

def capabilityScores (task : TaskEntity) : Scores :=
  let scores := AdapterType.all.foldl (scoreAdapter task) [(.claude, some 0), (.gemini, some 0)]
  match getPreferredAdapterForTask task.props.type with
  | some preferred => addScore scores preferred (2 / 10)
  | none => scores

/-- `b - a` is not positive; `NaN` counts as `0`. -/
def notBelow (a b : AdapterType × Score) : Bool :=
  match a.2, b.2 with
  | some x, some y => decide (y ≤ x)
  | _, _ => true

def selectByCapabilities (task : TaskEntity) : RoutingRecommendation :=
  let scores := capabilityScores task
  -- there are always two
  let selectedAdapter := ((scores.mergeSort notBelow).head?.map Prod.fst).getD .claude
  { adapter := selectedAdapter
    confidence := (scores.lookup selectedAdapter).join
    reason := "Selected based on capability matching" }

/-! ## The router -/

structure TaskRouter where
  strategies : List RoutingStrategy

namespace TaskRouter

def addStrategy (r : TaskRouter) (strategy : RoutingStrategy) : TaskRouter :=
  ⟨sortDescending RoutingStrategy.priority (r.strategies ++ [strategy])⟩

def removeStrategy (r : TaskRouter) (name : String) : TaskRouter :=
  ⟨r.strategies.filter fun s => s.name != name⟩

def ruleBased : RoutingStrategy where
  name := "rule-based"
  priority := 100
  canHandle _ := true
  selectAdapter task :=
    match task.props.type with
    | .refactoring => some .claude
    | .validation => some .claude
    | .testing => some .claude
    | .search => some .gemini
    | .multimodal => some .gemini
    | _ => none

def complexityBased : RoutingStrategy where
  name := "complexity-based"
  priority := 80
  canHandle task := decide (500 < textLength task.props.prompt)
  selectAdapter task :=
    match task.props.type with
    | .codeGeneration => some .claude
    | .architecture => some .claude
    | .debugging => some .claude
    | _ => none

def performanceBased : RoutingStrategy where
  name := "performance-based"
  priority := 60
  canHandle task := decide (3 ≤ task.props.priority.value)
  selectAdapter _ := some .gemini

def initializeDefaultStrategies (r : TaskRouter) : TaskRouter :=
  ((r.addStrategy ruleBased).addStrategy complexityBased).addStrategy performanceBased

def new : TaskRouter := initializeDefaultStrategies ⟨[]⟩

def tryStrategies (task : TaskEntity) : List RoutingStrategy → Option RoutingRecommendation
  | [] => none
  | strategy :: rest =>
    if strategy.canHandle task then
      match strategy.selectAdapter task with
      | some adapter => some ⟨adapter, some (8 / 10), "Selected by " ++ strategy.name ++
        " strategy"⟩
      | none => tryStrategies task rest
    else tryStrategies task rest

def routeByStrategies (r : TaskRouter) (task : TaskEntity) : RoutingRecommendation :=
  (tryStrategies task r.strategies).getD (selectByCapabilities task)

def route (r : TaskRouter) (task : TaskEntity) : RoutingRecommendation :=
  match task.props.preferredAdapter with
  | some preferred =>
    if task.canBeExecutedBy preferred then ⟨preferred, some 1, "User-specified preferred adapter"⟩
    else r.routeByStrategies task
  | none => r.routeByStrategies task

/-! ## Histories -/

inductive Call where
  | addStrategy (strategy : RoutingStrategy)
  | removeStrategy (name : String)

def perform (r : TaskRouter) : Call → TaskRouter
  | .addStrategy strategy => r.addStrategy strategy
  | .removeStrategy name => r.removeStrategy name

def after (calls : List Call) : TaskRouter := calls.foldl perform new

def defaults : List RoutingStrategy := [ruleBased, complexityBased, performanceBased]

/-- What a call does to the strategies that are there, in the order in which they were added. -/
def keep (l : List RoutingStrategy) : Call → List RoutingStrategy
  | .addStrategy strategy => l ++ [strategy]
  | .removeStrategy name => l.filter fun s => s.name != name

/-- The strategies added and not removed since, in the order in which they were added. -/
def live (calls : List Call) : List RoutingStrategy := calls.foldl keep defaults

theorem perform_strategies {r : TaskRouter} {l : List RoutingStrategy} (c : Call)
    (h : r.strategies = sortDescending RoutingStrategy.priority l) :
    (r.perform c).strategies = sortDescending RoutingStrategy.priority (keep l c) := by
  cases c with
  | addStrategy strategy =>
    simp only [perform, addStrategy, keep, h]
    exact sortDescending_concat _ l strategy
  | removeStrategy name =>
    simp only [perform, removeStrategy, keep, h]
    exact filter_sortDescending _ l _

theorem foldl_strategies {r : TaskRouter} {l : List RoutingStrategy} (calls : List Call)
    (h : r.strategies = sortDescending RoutingStrategy.priority l) :
    (calls.foldl perform r).strategies =
      sortDescending RoutingStrategy.priority (calls.foldl keep l) := by
  induction calls generalizing r l with
  | nil => exact h
  | cons c calls ih => exact ih (perform_strategies c h)

theorem strategies_new : new.strategies = sortDescending RoutingStrategy.priority defaults := by
  have hempty : (⟨[]⟩ : TaskRouter).strategies = sortDescending RoutingStrategy.priority [] := by
    rw [sortDescending, mergeSort_nil]
  exact foldl_strategies
    [.addStrategy ruleBased, .addStrategy complexityBased, .addStrategy performanceBased] hempty

theorem strategies_after (calls : List Call) :
    (after calls).strategies = sortDescending RoutingStrategy.priority (live calls) :=
  foldl_strategies calls strategies_new

/-! ## The answer of a strategy -/

end TaskRouter

namespace RoutingStrategy

def answers (s : RoutingStrategy) (task : TaskEntity) : Bool :=
  s.canHandle task && (s.selectAdapter task).isSome

theorem answers_iff {s : RoutingStrategy} {task : TaskEntity} :
    s.answers task = true ↔ s.canHandle task = true ∧ ∃ adapter, s.selectAdapter task =
      some adapter := by
  rw [answers, Bool.and_eq_true, Option.isSome_iff_exists]

def recommends (s : RoutingStrategy) (adapter : AdapterType) : RoutingRecommendation :=
  ⟨adapter, some (8 / 10), "Selected by " ++ s.name ++ " strategy"⟩

end RoutingStrategy

/-- The task prefers no adapter, or one that cannot execute it. -/
def TaskEntity.NoUsablePreference (task : TaskEntity) : Prop :=
  ∀ preferred, task.props.preferredAdapter = some preferred → task.canBeExecutedBy preferred = false

namespace TaskRouter

variable {task : TaskEntity} {l : List RoutingStrategy} {s : RoutingStrategy}

theorem tryStrategies_of_none (h : l.find? (·.answers task) = none) :
    tryStrategies task l = none := by
  induction l with
  | nil => rfl
  | cons s l ih =>
    obtain ⟨hs, hl⟩ := forall_mem_cons.mp (find?_eq_none.mp h)
    have hrest := ih (find?_eq_none.mpr hl)
    unfold tryStrategies
    split_ifs with hcan
    · split
      · rename_i adapter hadapter
        exact absurd (RoutingStrategy.answers_iff.mpr ⟨hcan, adapter, hadapter⟩) hs
      · exact hrest
    · exact hrest

theorem tryStrategies_of_some (h : l.find? (·.answers task) = some s) :
    ∃ adapter, s.selectAdapter task = some adapter ∧
      tryStrategies task l = some (s.recommends adapter) := by
  induction l with
  | nil => cases h
  | cons x l ih =>
    rw [find?_cons] at h
    by_cases hx : x.answers task = true
    · rw [hx] at h
      cases h
      obtain ⟨hcan, adapter, hadapter⟩ := RoutingStrategy.answers_iff.mp hx
      refine ⟨adapter, hadapter, ?_⟩
      rw [tryStrategies, if_pos hcan, hadapter]
      rfl
    · rw [Bool.eq_false_iff.mpr hx] at h
      obtain ⟨adapter, hadapter, hrest⟩ := ih h
      refine ⟨adapter, hadapter, ?_⟩
      rw [← hrest]
      conv_lhs => unfold tryStrategies
      split_ifs with hxcan
      · split
        · rename_i a ha
          exact absurd (RoutingStrategy.answers_iff.mpr ⟨hxcan, a, ha⟩) hx
        · rfl
      · rfl

theorem route_of_noUsablePreference (r : TaskRouter) (h : task.NoUsablePreference) :
    r.route task = r.routeByStrategies task := by
  unfold route
  split
  · rename_i preferred hpreferred
    rw [h preferred hpreferred]
    exact if_neg Bool.false_ne_true
  · rfl

theorem routeByStrategies_after (calls : List Call) (task : TaskEntity) :
    (∃ s adapter, FirstMax RoutingStrategy.priority ((live calls).filter (·.answers task)) s ∧
      s.selectAdapter task = some adapter ∧ (after calls).routeByStrategies task =
        s.recommends adapter) ∨
    (∀ s ∈ live calls, s.answers task = false) ∧
      (after calls).routeByStrategies task = selectByCapabilities task := by
  rw [routeByStrategies, strategies_after]
  obtain ⟨s, hfind, hfirst⟩ | ⟨hfind, hnone⟩ :=
    find_sortDescending RoutingStrategy.priority (live calls) (·.answers task)
  · obtain ⟨adapter, hadapter, htry⟩ := tryStrategies_of_some hfind
    refine .inl ⟨s, adapter, hfirst, hadapter, ?_⟩
    rw [htry, Option.getD_some]
  · refine .inr ⟨hnone, ?_⟩
    rw [tryStrategies_of_none hfind, Option.getD_none]

/-- **After every history the first of the best strategies decides**: among the strategies that were
added and not removed since, that can handle the task and select an adapter, the first of highest
priority. -/
theorem route_first (calls : List Call) (task : TaskEntity) (h : task.NoUsablePreference) :
    (∃ s adapter, FirstMax RoutingStrategy.priority ((live calls).filter (·.answers task)) s ∧
      s.selectAdapter task = some adapter ∧ (after calls).route task = s.recommends adapter) ∨
    (∀ s ∈ live calls, s.answers task = false) ∧
      (after calls).route task = selectByCapabilities task := by
  rw [route_of_noUsablePreference _ h]
  exact routeByStrategies_after calls task

theorem route_first_fresh : ∃ s adapter, FirstMax RoutingStrategy.priority
        ((live [.removeStrategy "complexity-based"]).filter
          (·.answers (.new TaskEntity.freshProps))) s ∧
      s.selectAdapter (.new TaskEntity.freshProps) = some adapter ∧
      (after [.removeStrategy "complexity-based"]).route (.new TaskEntity.freshProps) =
        s.recommends adapter := by
  refine (route_first _ _ ?_).resolve_right fun h => ?_
  · intro preferred h
    cases h
  · exact absurd (h.1 ruleBased (.head _)) (by decide)

end TaskRouter

end Bridge.Domain
