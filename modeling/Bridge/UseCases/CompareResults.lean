import Bridge.Lib.OrderedMap
import Bridge.Results.Selection

/-!
# `CompareResultsUseCase`

The results for a task are loaded, by their ids, by their adapters or all of them, and every two of
them are compared. On the way the best one is named, by a stable sort; and a merge, if one is asked
for, makes its own choice by a scan. Both find the first result of the highest quality.

Not modelled: log lines, and the event of the end but for whether it is refused.
-/

namespace Bridge.UseCases.Compare

open Lib Utf16 Domain Results List

structure CompareResultsCommand where
  taskId : String
  resultIds : List Units := []
  adapters : List AdapterType := []
  includeValidation : Bool := false
  mergeStrategy : Option MergeStrategy := none

structure Comparison where
  consensus : Bool
  similarity : Rat
  differences : List Units
  bestResult : Option Units
  worstResult : Option Units := none
  deriving DecidableEq

structure Compared where
  id : Units
  adapter : AdapterType
  output : Units
  executionTime : Rat
  qualityScore : Rat
  createdAt : Int
  deriving DecidableEq

structure Merged where
  output : Units
  strategy : MergeStrategy
  confidence : Rat
  deriving DecidableEq

structure ComparisonResult where
  taskId : String
  results : List Compared
  comparison : Comparison
  validation : Option (OrderedMap Units ValidationReport)
  merged : Option Merged

structure Services where
  findTask : TaskId → Except Thrown (Option TaskEntity)
  findResult : Units → Except Thrown (Option ResultRef)
  findByTaskId : TaskId → Except Thrown (List ResultRef)
  criteria : List ValidationCriteria
  format : Format
  emit : Except Thrown Unit
  mergeTime : Rat
  /-- The arithmetic the quality scores are computed in. -/
  arithmetic : Rounding

section Compare

variable (f : Format)

structure Tally where
  totalSimilarity : Rat := 0
  allDifferences : List Units := []
  consensusCount : Nat := 0

def Tally.add (t : Tally) (p : ResultRef × ResultRef) : Except Thrown Tally := do
  let crossValidation ← crossValidate f p.1.result p.2.result
  return {
    totalSimilarity := t.totalSimilarity + crossValidation.similarity
    allDifferences := t.allDifferences ++ crossValidation.differences
    consensusCount := t.consensusCount + if crossValidation.consensus then 1 else 0 }

def qualityScore (a : Rounding) (r : ResultRef) : Rat := r.result.getQualityScore a

def compareResults (results : List ResultRef) (a : Rounding := .exact) : Except Thrown Comparison :=
  if results.length < 2 then
    .ok {
      consensus := true
      similarity := 1
      differences := []
      bestResult := results.head?.map (·.result.id) }
  else do
    let sortedResults := sortDescending (qualityScore a) results
    let t ← (pairs results).foldlM (Tally.add f) {}
    let pairCount := results.length * (results.length - 1) / 2
    return {
      consensus := decide (t.consensusCount = pairCount)
      similarity := t.totalSimilarity / pairCount
      differences := unique t.allDifferences
      bestResult := sortedResults.head?.map (·.result.id)
      worstResult := sortedResults.getLast?.map (·.result.id) }

end Compare

/-! ## The use case -/

section Execute

variable (s : Services)

def loadResultsByIds (resultIds : List Units) : Except Thrown (List ResultRef) :=
  resultIds.mapM fun id => do
    match ← s.findResult id with
    | none => throw (.value (.text (ofString "Result not found: " ++ id)) none)
    | some r => return r

def loadResultsByAdapters (taskId : TaskId) (adapters : List AdapterType) :
    Except Thrown (List ResultRef) := do
  let allResults ← s.findByTaskId taskId
  return allResults.filter fun r => adapters.contains r.result.adapter

section Commands

variable (command : CompareResultsCommand)

def loadResults (taskId : TaskId) : Except Thrown (List ResultRef) :=
  if 0 < command.resultIds.length then loadResultsByIds s command.resultIds
  else if 0 < command.adapters.length then loadResultsByAdapters s taskId command.adapters
  else s.findByTaskId taskId

def validateResults (results : List ResultRef) (task : TaskEntity) :
    OrderedMap Units ValidationReport :=
  results.foldl (fun m r => m.set r.result.id (validate s.criteria r.result task)) .empty

def mergeResults (results : List ResultRef) (task : TaskEntity) : Except Thrown (Option Merged) :=
  match command.mergeStrategy with
  | none => .ok none
  | some strategy =>
    if 1 < results.length then do
      let m ← merge s.format s.mergeTime results task
        { strategy := strategy, formatOutput := true } s.arithmetic
      return some ⟨m.output, m.strategy, m.confidence⟩
    else .ok none

def load : Except Thrown (TaskEntity × List ResultRef) := do
  let taskId ← (TaskId.fromString command.taskId).mapError Thrown.error
  match ← s.findTask taskId with
  | none => throw (.error ("Task not found: " ++ command.taskId))
  | some task => return (task, ← loadResults s command taskId)

def describe (r : ResultRef) : Compared where
  id := r.result.id
  adapter := r.result.adapter
  output := r.result.output
  executionTime := r.result.executionTime
  qualityScore := r.result.getQualityScore s.arithmetic
  createdAt := r.result.createdAt

/-- `execute`, for the results that have been loaded. -/
def report (task : TaskEntity) (results : List ResultRef) : Except Thrown ComparisonResult :=
  if results.length = 0 then .error (.error "Validation failed")
  else do
    let comparison ← compareResults s.format results s.arithmetic
    let validation := if command.includeValidation then some (validateResults s results task) else
      none
    let merged ← mergeResults s command results task
    s.emit
    return {
      taskId := command.taskId
      results := results.map (describe s)
      comparison := comparison
      validation := validation
      merged := merged }

def execute : Except Thrown ComparisonResult := do
  let (task, results) ← load s command
  report s command task results

end Commands

end Execute

/-! ## The double loop -/

section Loop

variable {f : Format} {results results' : List ResultRef} {a : Rounding}

def Different (r r' : ResultRef) : Prop := r.result.adapter ≠ r'.result.adapter

instance : DecidableRel Different := fun r r' =>
  inferInstanceAs (Decidable (r.result.adapter ≠ r'.result.adapter))

def comparedPair (f : Format) (p : ResultRef × ResultRef) : CrossValidation :=
  compared f p.1.result p.2.result

theorem add_different (t : Tally) {p : ResultRef × ResultRef} (h : Different p.1 p.2) :
    t.add f p = .ok ⟨t.totalSimilarity + (comparedPair f p).similarity,
      t.allDifferences ++ (comparedPair f p).differences,
      t.consensusCount + if (comparedPair f p).consensus then 1 else 0⟩ := by
  have hcross : crossValidate f p.1.result p.2.result = .ok (comparedPair f p) := if_neg h
  rw [Tally.add, hcross]
  rfl

theorem add_same (t : Tally) {p : ResultRef × ResultRef} (h : ¬ Different p.1 p.2) :
    t.add f p = .error sameAdapter := by
  have hcross : crossValidate f p.1.result p.2.result = .error sameAdapter := if_pos (not_not.mp h)
  rw [Tally.add, hcross]
  rfl

theorem foldlM_add (t : Tally) (l : List (ResultRef × ResultRef)) (h : ∀ p ∈ l, Different p.1 p.2) :
    l.foldlM (Tally.add f) t = .ok
      ⟨t.totalSimilarity + (l.map fun p => (comparedPair f p).similarity).sum,
        t.allDifferences ++ l.flatMap fun p => (comparedPair f p).differences,
        t.consensusCount + l.countP fun p => (comparedPair f p).consensus⟩ := by
  induction l generalizing t with
  | nil => simp [pure, Except.pure]
  | cons p l ih =>
    have hrest : ∀ q ∈ l, Different q.1 q.2 := fun q hq => h q (mem_cons_of_mem p hq)
    rw [foldlM_cons, add_different t (h p mem_cons_self)]
    refine (ih _ hrest).trans ?_
    simp only [map_cons, sum_cons, flatMap_cons, countP_cons, add_assoc, append_assoc, add_comm]

theorem foldlM_add_error (t : Tally) (l : List (ResultRef × ResultRef))
    (h : ¬ ∀ p ∈ l, Different p.1 p.2) : l.foldlM (Tally.add f) t = .error sameAdapter := by
  induction l generalizing t with
  | nil => exact absurd (by simp) h
  | cons p l ih =>
    rw [foldlM_cons]
    by_cases hp : Different p.1 p.2
    · rw [add_different t hp]
      refine ih _ fun hrest => h ?_
      intro q hq
      obtain rfl | hq := mem_cons.mp hq
      · exact hp
      · exact hrest q hq
    · rw [add_same t hp]
      rfl

theorem compareResults_different (h : results.Pairwise Different) (htwo : 2 ≤ results.length) :
    compareResults f results a = .ok {
      consensus := decide ((pairs results).countP (fun p => (comparedPair f p).consensus) =
        results.length * (results.length - 1) / 2)
      similarity := ((pairs results).map fun p => (comparedPair f p).similarity).sum /
        (results.length * (results.length - 1) / 2 : Nat)
      differences := unique ((pairs results).flatMap fun p => (comparedPair f p).differences)
      bestResult := (sortDescending (qualityScore a) results).head?.map (·.result.id)
      worstResult := (sortDescending (qualityScore a) results).getLast?.map (·.result.id) } := by
  rw [compareResults, if_neg (Nat.not_lt.mpr htwo), foldlM_add _ _ (forall_mem_pairs.mpr h)]
  simp only [nil_append, zero_add]
  rfl

theorem pairwise_of_length_lt_two {R : ResultRef → ResultRef → Prop} (h : results.length < 2) :
    results.Pairwise R := by
  obtain _ | ⟨r, _ | ⟨r', rest⟩⟩ := results
  · exact .nil
  · exact pairwise_singleton _ _
  · simp only [length_cons] at h
    omega

theorem compareResults_same (h : ¬ results.Pairwise Different) :
    compareResults f results a = .error sameAdapter := by
  have htwo : ¬ results.length < 2 := fun hlt => h (pairwise_of_length_lt_two hlt)
  rw [compareResults, if_neg htwo, foldlM_add_error _ _ fun hall => h (forall_mem_pairs.mp hall)]
  rfl

theorem compareResults_ok (f : Format) (a : Rounding) (h : results.Pairwise Different) :
    ∃ c, compareResults f results a = .ok c := by
  by_cases htwo : results.length < 2
  · exact ⟨_, if_pos htwo⟩
  · exact ⟨_, compareResults_different h (Nat.not_lt.mp htwo)⟩

end Loop

/-! ## When a comparison is returned -/

section Returns

variable {s : Services} {command : CompareResultsCommand} {task : TaskEntity}
    {results : List ResultRef}

theorem execute_of_load (h : load s command = .ok (task, results)) :
    execute s command = report s command task results := by
  rw [execute, h]
  rfl

theorem report_ok_iff (hmerge : command.mergeStrategy = none) :
    (∃ r, report s command task results = .ok r) ↔
      results ≠ [] ∧ results.Pairwise Different ∧ s.emit = .ok () := by
  unfold report
  by_cases hempty : results = []
  · simp [hempty]
  · rw [if_neg (by simpa using hempty)]
    by_cases hdifferent : results.Pairwise Different
    · obtain ⟨c, hc⟩ := compareResults_ok s.format s.arithmetic hdifferent
      have hmerged : mergeResults s command results task = .ok none := by
        simp [mergeResults, hmerge]
      rw [hc, hmerged]
      cases hemit : s.emit with
      | error e => simp [bind, Except.bind]
      | ok u => simp [bind, Except.bind, pure, Except.pure, hempty, hdifferent]
    · rw [compareResults_same hdifferent]
      simp [bind, Except.bind, hdifferent]

end Returns

/-- Without a merge strategy: a comparison is returned for what is loaded, if that is not empty,
unless two of the results are of one adapter. -/
theorem returns_iff (s : Services) (command : CompareResultsCommand) (task : TaskEntity)
    (results : List ResultRef) (hmerge : command.mergeStrategy = none)
    (hload : load s command = .ok (task, results)) (hne : results ≠ []) (hemit : s.emit = .ok ()) :
    ((∃ r, execute s command = .ok r) ↔ results.Pairwise Different) ∧
      (¬ results.Pairwise Different → execute s command = .error sameAdapter) := by
  rw [execute_of_load hload]
  constructor
  · rw [report_ok_iff hmerge]
    simp [hne, hemit]
  · intro h
    rw [report, if_neg (by simpa using hne), compareResults_same h]
    rfl

def stored (results : List ResultRef) : Services where
  findTask _ := .ok (some (.new TaskEntity.freshProps))
  findResult _ := .ok none
  findByTaskId _ := .ok results
  criteria := defaultCriteria .plain
  format := .plain
  emit := .ok ()
  mergeTime := 1
  arithmetic := .double

def compareFresh : CompareResultsCommand := { taskId := TaskEntity.freshProps.id.value }

theorem different_shortAnswers : shortAnswers.Pairwise Different := by
  decide

theorem returns_iff_shortAnswers : ∃ r, execute (stored shortAnswers) compareFresh = .ok r :=
  (returns_iff (stored shortAnswers) compareFresh (.new TaskEntity.freshProps) shortAnswers rfl rfl
    (cons_ne_nil _ _) rfl).1.mpr different_shortAnswers

def twice : List ResultRef := [resultOf 0 .claude "Yes.", resultOf 1 .claude "Yes."]

theorem executed_twice : execute (stored twice) compareFresh = .error sameAdapter := rfl

/-! ## In another order -/

section Order

variable {f : Format} {results results' : List ResultRef}

def outcome (f : Format) (p : ResultRef × ResultRef) : Bool × Rat × Finset Units :=
  ((comparedPair f p).consensus, (comparedPair f p).similarity,
    (comparedPair f p).differences.toFinset)

theorem outcome_swap (f : Format) (r r' : ResultRef) : outcome f (r, r') = outcome f (r', r) := by
  obtain ⟨hconsensus, hsimilarity, hdifferences⟩ := compared_swap f r.result r'.result
  simp [outcome, comparedPair, hconsensus, hsimilarity, hdifferences]

theorem perm_outcomes (f : Format) (h : results.Perm results') :
    ((pairs results).map (outcome f)).Perm ((pairs results').map (outcome f)) :=
  perm_map_pairs (outcome_swap f) h

theorem countP_consensus (l : List (ResultRef × ResultRef)) :
    l.countP (fun p => (comparedPair f p).consensus) = (l.map (outcome f)).countP fun o => o.1 := by
  rw [countP_map]
  rfl

theorem sum_similarity (l : List (ResultRef × ResultRef)) :
    (l.map fun p => (comparedPair f p).similarity).sum =
      ((l.map (outcome f)).map fun o => o.2.1).sum := by
  rw [map_map]
  rfl

theorem mem_differences (l : List (ResultRef × ResultRef)) (d : Units) :
    d ∈ l.flatMap (fun p => (comparedPair f p).differences) ↔ ∃ o ∈ l.map (outcome f),
      d ∈ o.2.2 := by
  rw [mem_flatMap]
  constructor
  · rintro ⟨p, hp, hd⟩
    exact ⟨outcome f p, mem_map_of_mem hp, mem_toFinset.mpr hd⟩
  · rintro ⟨o, ho, hd⟩
    obtain ⟨p, hp, rfl⟩ := mem_map.mp ho
    exact ⟨p, hp, mem_toFinset.mp hd⟩

end Order

/-- The order of the results does not matter for what is compared. -/
theorem compareResults_perm (f : Format) (results results' : List ResultRef)
    (hperm : results.Perm results') (hdifferent : results.Pairwise Different)
    (htwo : 2 ≤ results.length) :
    ∃ c c', compareResults f results = .ok c ∧ compareResults f results' = .ok c' ∧
      c.consensus = c'.consensus ∧ c.similarity = c'.similarity ∧
      c.differences.toFinset = c'.differences.toFinset := by
  have hsymm : ∀ r r', Different r r' → Different r' r := fun _ _ h => h.symm
  have hdifferent' : results'.Pairwise Different := hperm.pairwise hdifferent (hsymm _ _)
  have htwo' : 2 ≤ results'.length := hperm.length_eq ▸ htwo
  have houtcomes := perm_outcomes f hperm
  refine ⟨_, _, compareResults_different hdifferent htwo, compareResults_different
    hdifferent' htwo', ?_⟩
  simp only [← hperm.length_eq, countP_consensus, sum_similarity]
  refine ⟨by rw [houtcomes.countP_eq], by rw [(houtcomes.map _).sum_eq], ?_⟩
  ext d
  simp only [unique, mem_toFinset, mem_eraseDups, mem_differences, houtcomes.mem_iff]

theorem compareResults_perm_shortAnswers : ∃ c c',
    compareResults .plain shortAnswers = .ok c ∧ compareResults .plain shortAnswers.reverse =
      .ok c' ∧ c.consensus = c'.consensus ∧ c.similarity = c'.similarity ∧
      c.differences.toFinset = c'.differences.toFinset :=
  compareResults_perm .plain shortAnswers shortAnswers.reverse (reverse_perm _).symm
    different_shortAnswers (by decide)

theorem firstMax_sorted (a : Rounding) {results : List ResultRef} (hne : results ≠ []) : ∃ best,
    (sortDescending (qualityScore a) results).head? = some best ∧
    FirstMax (qualityScore a) results best := by
  cases hsorted : sortDescending (qualityScore a) results with
  | nil =>
    have hperm := perm_sortDescending (qualityScore a) results
    rw [hsorted] at hperm
    exact absurd hperm.nil_eq.symm hne
  | cons best rest => exact ⟨best, rfl, firstMax_sortDescending (qualityScore a) results hsorted⟩

theorem firstMax_selectBestResult (a : Rounding) (first : ResultRef) (rest : List ResultRef) :
    FirstMax (qualityScore a) (first :: rest) (selectBestResult first (first :: rest) none a) := by
  have hscore : preferredScore a none = qualityScore a := by
    funext r
    exact if_neg (by simp)
  -- without a preferred adapter, the second look at the first result changes nothing
  have hfirst : keepBetter (qualityScore a) (first, qualityScore a first) first =
      (first, qualityScore a first) := if_neg (lt_irrefl _)
  have hstart : FirstMax (qualityScore a) [first] first := .cons_of_le (by simp)
  have hscan := hstart.foldl_keepBetter rest
  unfold selectBestResult
  rw [hscore, foldl_cons]
  exact hfirst.symm ▸ hscan

theorem mergeResults_bestOf (s : Services) {command : CompareResultsCommand} (task : TaskEntity)
    (hmerge : command.mergeStrategy = some .BEST_OF) (first second : ResultRef)
    (rest : List ResultRef) :
    ∃ merged, mergeResults s command (first :: second :: rest) task = .ok (some merged) ∧
      merged.output =
        (selectBestResult first (first :: second :: rest) none s.arithmetic).result.output := by
  have hmore : 1 < (first :: second :: rest).length := by simp
  simp only [mergeResults, hmerge, if_pos hmore]
  exact ⟨_, rfl, rfl⟩

/-- Asked for the best of the results, the use case returns the output of the one the comparison
names as the best: the first one of the highest quality score, in whatever arithmetic the scores are
computed. -/
theorem merged_bestOf (s : Services) (command : CompareResultsCommand) (task : TaskEntity)
    (results : List ResultRef) (hmerge : command.mergeStrategy = some .BEST_OF)
    (hload : load s command = .ok (task, results)) (htwo : 2 ≤ results.length)
    (hdifferent : results.Pairwise Different) (hemit : s.emit = .ok ()) :
    ∃ r merged best before after, execute s command = .ok r ∧ r.merged = some merged ∧
      results = before ++ best :: after ∧ r.comparison.bestResult = some best.result.id ∧
      merged.output = best.result.output ∧
      (∀ x ∈ before,
        x.result.getQualityScore s.arithmetic < best.result.getQualityScore s.arithmetic) ∧
      ∀ x ∈ after,
        x.result.getQualityScore s.arithmetic ≤ best.result.getQualityScore s.arithmetic := by
  have hcompare := compareResults_different (f := s.format) (a := s.arithmetic) hdifferent htwo
  obtain _ | ⟨first, _ | ⟨second, rest⟩⟩ := results
  · simp at htwo
  · simp at htwo
  · obtain ⟨merged, hmerged, houtput⟩ := mergeResults_bestOf s task hmerge first second rest
    obtain ⟨best, hhead, hbest⟩ := firstMax_sorted s.arithmetic (cons_ne_nil first (second :: rest))
    have hsame := (firstMax_selectBestResult s.arithmetic first (second :: rest)).unique hbest
    have hexecute : ∃ r, execute s command = .ok r ∧ r.merged = some merged ∧
        r.comparison.bestResult = some best.result.id := by
      rw [execute_of_load hload, report, if_neg (by simp), hcompare, hmerged, hemit]
      exact ⟨_, rfl, rfl, by rw [hhead]; rfl⟩
    obtain ⟨r, hr, hrmerged, hrbest⟩ := hexecute
    obtain ⟨before, after, hresults, hbefore, hafter⟩ := hbest
    refine ⟨r, merged, best, before, after, hr, hrmerged, hresults, hrbest, ?_, hbefore, hafter⟩
    rw [houtput, hsame]

theorem merged_bestOf_shortAnswers : ∃ r merged best before after,
    execute (stored shortAnswers) { compareFresh with mergeStrategy := some .BEST_OF } = .ok r ∧
      r.merged = some merged ∧ shortAnswers = before ++ best :: after ∧
      r.comparison.bestResult = some best.result.id ∧ merged.output = best.result.output ∧
      (∀ x ∈ before, x.result.getQualityScore .double < best.result.getQualityScore .double) ∧
      ∀ x ∈ after, x.result.getQualityScore .double ≤ best.result.getQualityScore .double :=
  merged_bestOf (stored shortAnswers) { compareFresh with mergeStrategy := some .BEST_OF }
    (.new TaskEntity.freshProps) shortAnswers rfl rfl (by decide) different_shortAnswers rfl

def retriedOf (ref : Nat) (adapter : AdapterType) (retryCount executionTime : Rat) : ResultRef where
  ref := ref
  result := { (resultOf ref adapter "Yes.").result with
    metadata := { executionTime := executionTime, retryCount := some retryCount } }

-- a tie of the exact scores is none in doubles, and both choices are made by the rounded score
example : qualityScore .exact (retriedOf 0 .claude 3 1000) =
      qualityScore .exact (retriedOf 1 .gemini 2 20000) ∧
    qualityScore .double (retriedOf 0 .claude 3 1000) <
      qualityScore .double (retriedOf 1 .gemini 2 20000) := by
  decide +kernel

end Bridge.UseCases.Compare
