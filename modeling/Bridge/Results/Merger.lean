import Mathlib.Algebra.BigOperators.Ring.Finset
import Mathlib.Algebra.Order.BigOperators.Group.List
import Mathlib.Tactic.FieldSimp
import Mathlib.Tactic.Linarith
import Mathlib.Tactic.Positivity
import Bridge.Lib.Pairs
import Bridge.Results.Validator

/-!
# `ResultMerger`

Four ways of making one result of several. Each says how much every result has contributed, as a
percentage: all of it by one result, the same by each, a fixed part, or, for the combination, by how
many of the key elements of a result have come through into the combined text.
-/

namespace Bridge.Results

open Lib Utf16 Domain List

inductive MergeStrategy
  | CONSENSUS
  | BEST_OF
  | COMBINE
  | VALIDATE
  -- anything else that is passed for a strategy
  | unknown (text : Units)
  deriving DecidableEq

structure MergeOptions where
  strategy : MergeStrategy
  preferredAdapter : Option AdapterType := none
  formatOutput : Bool := false

/-- A `Result` as it is held: two of them are the same object if they are the same reference. -/
structure ResultRef where
  ref : Nat
  result : ResultEntity

structure Source where
  adapter : AdapterType
  contribution : Rat
  deriving DecidableEq

structure MergedResult where
  output : Units
  strategy : MergeStrategy
  sources : List Source
  confidence : Rat
  totalExecutionTime : Rat
  mergeTime : Rat
  consensus : Option Bool := none
  validationScore : Option Rat := none
  deriving DecidableEq

def newline : UInt16 := 0x0A

/-- `texts.join(separator)` -/
def join (separator : Units) (texts : List Units) : Units := (texts.intersperse separator).flatten

/-- `[...new Set(texts)]` -/
def unique (texts : List Units) : List Units := texts.eraseDups

section Elements

variable (f : Format)

def areSimilar (str1 str2 : Units) : Bool :=
  let words1 := words f.lowerCase str1
  let words2 := words f.lowerCase str2
  decide ((7 / 10 : Rat) < (words1 ∩ words2).card / min words1.card words2.card)

def findCommonElements (results : List ResultRef) : List Units :=
  let allElements := results.map fun r => extractKeyElements r.result.output
  (allElements.headD []).filter fun element =>
    allElements.all fun elements => elements.any fun e => areSimilar f e element

def calculateConsensusConfidence (results : List ResultRef) : Rat :=
  let compared := pairs (results.map (·.result.output))
  if compared.length = 0 then 0
  else (compared.map fun p => calculateSimilarity f p.1 p.2).sum / compared.length

def preferredScore (a : Rounding) (preferredAdapter : Option AdapterType) (r : ResultRef) : Rat :=
  if preferredAdapter = some r.result.adapter then
    a.round (r.result.getQualityScore a + a.round (1 / 10))
  else r.result.getQualityScore a

/-- The scan comes to the first result again, and may give it the bonus then. -/
def selectBestResult (first : ResultRef) (results : List ResultRef)
    (preferredAdapter : Option AdapterType) (a : Rounding := .exact) : ResultRef :=
  (results.foldl (keepBetter (preferredScore a preferredAdapter))
    (first, first.result.getQualityScore a)).1

def sumExecutionTime (results : List ResultRef) : Rat := (results.map (·.result.executionTime)).sum

end Elements

/-! ## The combined text -/

structure Sections where
  code : List Units := []
  text : List Units := []
  lists : List Units := []

def extractSections (results : List ResultRef) : Sections where
  code := results.flatMap fun r => codeBlocks r.result.output
  text := results.flatMap fun r => paragraphs r.result.output
  lists := results.flatMap fun r => listItems r.result.output

def combineSections (sections : Sections) (task : TaskEntity) : Units :=
  let code := if includes (ofString task.props.type.text) (ofString "CODE") then unique
    sections.code else []
  let lists := unique sections.lists
  join [newline, newline]
    (code ++ unique sections.text ++ if lists = [] then [] else [join [newline] lists])

def survivors (combined : Units) (r : ResultRef) : Nat :=
  (extractKeyElements r.result.output).countP fun element => includes combined element

def calculateContributions (results : List ResultRef) (combined : Units) : List Rat :=
  let contributions := results.map (survivors combined)
  let total := contributions.sum
  contributions.map fun c : Nat => if 0 < total then (c : Rat) / total * 100 else 0

def calculateCombinedConfidence (f : Format) (results : List ResultRef) : Rat :=
  let avgQuality := (results.map (·.result.getQualityScore)).sum / results.length
  let agreementBonus := calculateConsensusConfidence f results * (1 / 5)
  min 1 (avgQuality + agreementBonus)

/-- The lines of the combined text; `inCodeBlock` is whether the one before was in a block. -/
def formatLines : Bool → List Units → List Units
  | _, [] => []
  | inCodeBlock, line :: lines =>
    let inCodeBlock := if ticks.isPrefixOf line then !inCodeBlock else inCodeBlock
    (if !inCodeBlock && decide (trim line ≠ []) && !(ofString "#").isPrefixOf line then
      ofString "• " ++ line else line) :: formatLines inCodeBlock lines

def formatCombinedOutput (combined : Units) : Units :=
  join [newline] ([ofString "## Combined Analysis", []] ++ formatLines false (splitLines combined))

def validateResult (f : Format) (primary validator : ResultEntity) : Rat :=
  let primaryElements := extractKeyElements primary.output
  let validatorElements := extractKeyElements validator.output
  let confirmed := primaryElements.countP fun element =>
    validatorElements.any fun v => areSimilar f element v
  if 0 < primaryElements.length then (confirmed : Rat) / primaryElements.length else 0

def formatValidatedOutput (f : Format) (primary validator : ResultEntity)
    (validationScore : Rat) : Units :=
  join [newline] [ofString "## Validated Result", [],
      ofString "Validation Score: " ++ f.fixed (validationScore * 100) ++ ofString "%", [],
      ofString "### Primary Response:", primary.output, [],
      ofString "### Validation Notes:", validator.output.take 500 ++ ofString "..."]

def formatConsensusOutput (commonElements : List Units) (results : List ResultRef) : Units :=
  join [newline] ([ofString "## Consensus Result", [],
        ofString "The following elements were agreed upon by all AI assistants:", []] ++
      commonElements ++
      [[], ofString "---", [], ofString "### Individual Responses:", []] ++
      results.flatMap fun r =>
        [ofString "**" ++ ofString r.result.adapter.text ++ ofString ":**",
          r.result.output.take 200 ++ ofString "...", []])

/-! ## The strategies -/

section Merge

variable (f : Format)

variable (first : ResultRef) (results : List ResultRef) (task : TaskEntity) (options : MergeOptions)

def byOne (best : ResultRef) (r : ResultRef) : Rat := if r.ref = best.ref then 100 else 0

def mergeByConsensus (a : Rounding := .exact) :
    MergedResult :=
  let commonElements := findCommonElements f results
  let consensusReached := decide (0 < commonElements.length)
  let best := selectBestResult first results none a
  { output :=
      if consensusReached then formatConsensusOutput commonElements results else best.result.output
    strategy := .CONSENSUS
    sources := results.map fun r =>
      ⟨r.result.adapter, if consensusReached then 100 / results.length else byOne best r⟩
    confidence := calculateConsensusConfidence f results
    totalExecutionTime := sumExecutionTime results
    mergeTime := 0
    consensus := some consensusReached }

def mergeByBestOf (a : Rounding := .exact) : MergedResult :=
  let best := selectBestResult first results options.preferredAdapter a
  { output := best.result.output
    strategy := .BEST_OF
    sources := results.map fun r => ⟨r.result.adapter, byOne best r⟩
    confidence := best.result.getQualityScore a
    totalExecutionTime := sumExecutionTime results
    mergeTime := 0 }

def mergeByCombining :
    MergedResult :=
  let combined := combineSections (extractSections results) task
  { output := if options.formatOutput then formatCombinedOutput combined else combined
    strategy := .COMBINE
    sources := List.zipWith (fun r contribution => ⟨r.result.adapter, contribution⟩) results
      (calculateContributions results combined)
    confidence := calculateCombinedConfidence f results
    totalExecutionTime := sumExecutionTime results
    mergeTime := 0 }

def mergeByValidation : List ResultRef → Except Thrown MergedResult
  | [primary, validator] =>
    let validationScore := validateResult f primary.result validator.result
    .ok {
      output := formatValidatedOutput f primary.result validator.result validationScore
      strategy := .VALIDATE
      sources := [⟨primary.result.adapter, 70⟩, ⟨validator.result.adapter, 30⟩]
      confidence := validationScore
      totalExecutionTime := sumExecutionTime [primary, validator]
      mergeTime := 0
      validationScore := some validationScore }
  | _ => .error (.error "Validation merge requires exactly 2 results")

def singleResultToMerged (r : ResultRef) (options : MergeOptions) (a : Rounding := .exact) :
    MergedResult where
  output := r.result.output
  strategy := options.strategy
  sources := [⟨r.result.adapter, 100⟩]
  confidence := r.result.getQualityScore a
  totalExecutionTime := r.result.executionTime
  mergeTime := 0

def mergeBy (a : Rounding := .exact) : Except Thrown MergedResult :=
  match options.strategy with
  | .CONSENSUS => .ok (mergeByConsensus f first results a)
  | .BEST_OF => .ok (mergeByBestOf first results options a)
  | .COMBINE => .ok (mergeByCombining f results task options)
  | .VALIDATE => mergeByValidation f results
  | .unknown text =>
    .error (.value (.text (ofString "Unknown merge strategy: " ++ text)) none)

/-- `merge`, which takes `mergeTime` milliseconds. -/
def merge (mergeTime : Rat) (results : List ResultRef) (task : TaskEntity) (options : MergeOptions)
    (a : Rounding := .exact) : Except Thrown MergedResult :=
  match results with
  | [] => .error (.error "No results to merge")
  | [r] => .ok (singleResultToMerged r options a)
  | first :: second :: rest =>
    (mergeBy f first (first :: second :: rest) task options a).map fun m =>
      { m with mergeTime := mergeTime }

end Merge

/-! ## What the contributions add up to -/

/-- Every contribution is a percentage, and together they are the whole. -/
structure Whole (contributions : List Rat) : Prop where
  bounds : ∀ c ∈ contributions, 0 ≤ c ∧ c ≤ 100
  total : contributions.sum = 100

theorem sum_byOne (best : ResultRef) (results : List ResultRef) :
    (results.map (byOne best)).sum = 100 * (results.map ResultRef.ref).count best.ref := by
  induction results with
  | nil => simp
  | cons r results ih =>
    rw [map_cons, sum_cons, ih, map_cons, count_cons, byOne]
    by_cases hr : r.ref = best.ref
    · simp [hr]
      ring
    · simp [hr]

variable {results : List ResultRef}

theorem whole_byOne {best : ResultRef}
    (hdistinct : (results.map ResultRef.ref).Nodup) (hbest : best ∈ results) :
    Whole (results.map (byOne best)) := by
  constructor
  · intro c hc
    obtain ⟨r, -, rfl⟩ := mem_map.mp hc
    unfold byOne
    split <;> norm_num
  · have hone := count_eq_one_of_mem hdistinct (mem_map_of_mem hbest)
    rw [sum_byOne, hone]
    norm_num

theorem whole_equal (hne : results ≠ []) :
    Whole (results.map fun _ => (100 : Rat) / results.length) := by
  have hpos : (1 : Rat) ≤ results.length := by
    exact_mod_cast length_pos_iff.mpr hne
  constructor
  · intro c hc
    obtain ⟨r, -, rfl⟩ := mem_map.mp hc
    refine ⟨by positivity, ?_⟩
    rw [div_le_iff₀ (by linarith)]
    linarith
  · rw [map_const', sum_replicate, nsmul_eq_mul]
    field_simp

def Barren (results : List ResultRef) (combined : Units) : Prop :=
  ∀ r ∈ results, ∀ element ∈ extractKeyElements r.result.output, includes combined element = false

theorem barren_iff (results : List ResultRef) (combined : Units) :
    Barren results combined ↔ (results.map (survivors combined)).sum = 0 := by
  rw [sum_eq_zero_iff]
  simp [Barren, survivors, countP_eq_zero]

theorem whole_contributions (results : List ResultRef) (combined : Units) :
    Whole (calculateContributions results combined) ↔ ¬ Barren results combined := by
  rw [barren_iff]
  unfold calculateContributions
  generalize hcounts : results.map (survivors combined) = counts
  by_cases hzero : counts.sum = 0
  · simp only [hzero, lt_irrefl, if_false, not_true, iff_false]
    intro hwhole
    have htotal := hwhole.total
    simp at htotal
  · have hpos : 0 < counts.sum := Nat.pos_of_ne_zero hzero
    have hpos' : (0 : Rat) < counts.sum := by exact_mod_cast hpos
    simp only [hpos, if_true, hzero, not_false_eq_true, iff_true]
    constructor
    · intro share hshare
      obtain ⟨c, hc, rfl⟩ := mem_map.mp hshare
      have hle : (c : Rat) ≤ counts.sum := by exact_mod_cast le_sum_of_mem hc
      refine ⟨by positivity, ?_⟩
      have hone : (c : Rat) / counts.sum ≤ 1 := (div_le_one hpos').mpr hle
      linarith
    · have hcast : (counts.map fun c : Nat => (c : Rat)).sum = counts.sum := by
        rw [Nat.cast_list_sum]
      calc (counts.map fun c : Nat => (c : Rat) / counts.sum * 100).sum
          = (counts.map fun c : Nat => (c : Rat) * (100 / counts.sum)).sum := by
            refine congrArg List.sum (map_congr_left fun c _ => ?_)
            ring
        _ = (counts.map fun c : Nat => (c : Rat)).sum * (100 / counts.sum) := by
            rw [sum_map_mul_right]
        _ = 100 := by
            rw [hcast]
            field_simp

theorem keepBetter_mem {score : ResultRef → Rat} {best : ResultRef × Rat} {r : ResultRef}
    (hbest : best.1 ∈ results) (hr : r ∈ results) : (keepBetter score best r).1 ∈ results := by
  unfold keepBetter
  split
  · exact hr
  · exact hbest

theorem selectBestResult_mem {first : ResultRef} {a : Rounding}
    (preferredAdapter : Option AdapterType) (hfirst : first ∈ results) :
    selectBestResult first results preferredAdapter a ∈ results := by
  -- the best so far is one of the results, at every turn of the scan
  have hscan : ∀ (rest : List ResultRef) (best : ResultRef × Rat), rest ⊆ results →
    best.1 ∈ results →
      (rest.foldl (keepBetter (preferredScore a preferredAdapter)) best).1 ∈ results := by
    intro rest
    induction rest with
    | nil => exact fun best _ hbest => hbest
    | cons r rest ih =>
      intro best hrest hbest
      obtain ⟨hr, hrest⟩ := cons_subset.mp hrest
      exact ih _ hrest (keepBetter_mem hbest hr)
  exact hscan results _ (List.Subset.refl _) hfirst

section Contributions

variable {f : Format} {first : ResultRef} {task : TaskEntity}
  {options : MergeOptions}

theorem whole_mergeByConsensus (hdistinct : (results.map ResultRef.ref).Nodup)
    (hfirst : first ∈ results) :
    Whole ((mergeByConsensus f first results).sources.map Source.contribution) := by
  simp only [mergeByConsensus, map_map]
  split
  · exact whole_equal (ne_nil_of_mem hfirst)
  · exact whole_byOne hdistinct (selectBestResult_mem none hfirst)

theorem whole_mergeByBestOf (hdistinct : (results.map ResultRef.ref).Nodup)
    (hfirst : first ∈ results) :
    Whole ((mergeByBestOf first results options).sources.map Source.contribution) := by
  simp only [mergeByBestOf, map_map]
  exact whole_byOne hdistinct (selectBestResult_mem options.preferredAdapter hfirst)

theorem contributions_mergeByCombining :
    (mergeByCombining f results task options).sources.map Source.contribution =
      calculateContributions results (combineSections (extractSections results) task) := by
  simp only [mergeByCombining, map_zipWith, calculateContributions, map_map]
  rw [zipWith_map_right, zipWith_self]

variable {m : MergedResult}

theorem whole_mergeByValidation (h : mergeByValidation f results = .ok m) :
    Whole (m.sources.map Source.contribution) := by
  obtain _ | ⟨primary, _ | ⟨validator, _ | ⟨third, rest⟩⟩⟩ := results
  · cases h
  · cases h
  · cases h
    constructor
    · intro c hc
      simp only [map_cons, map_nil, mem_cons, not_mem_nil, or_false] at hc
      obtain rfl | rfl := hc <;> norm_num
    · norm_num
  · cases h

theorem mergeBy_of_merge {mergeTime : Rat} {second : ResultRef}
    (h : merge f mergeTime (first :: second :: results) task options = .ok m) :
    ∃ merged, mergeBy f first (first :: second :: results) task options = .ok merged ∧
      { merged with mergeTime := mergeTime } = m := by
  rw [merge] at h
  cases hby : mergeBy f first (first :: second :: results) task options with
  | error e =>
    rw [hby] at h
    cases h
  | ok merged =>
    rw [hby] at h
    exact ⟨merged, rfl, Except.ok.inj h⟩

theorem whole_mergeBy (hdistinct : (results.map ResultRef.ref).Nodup)
    (hfirst : first ∈ results) (h : mergeBy f first results task options = .ok m) :
    Whole (m.sources.map Source.contribution) ↔
      ¬ (options.strategy = .COMBINE ∧ Barren results (combineSections (extractSections results)
        task)) := by
  unfold mergeBy at h
  cases hstrategy : options.strategy with
  | CONSENSUS =>
    simp only [hstrategy] at h
    cases h
    simp [whole_mergeByConsensus hdistinct hfirst]
  | BEST_OF =>
    simp only [hstrategy] at h
    cases h
    simp [whole_mergeByBestOf hdistinct hfirst]
  | COMBINE =>
    simp only [hstrategy] at h
    cases h
    rw [contributions_mergeByCombining, whole_contributions]
    simp
  | VALIDATE =>
    simp only [hstrategy] at h
    simp [whole_mergeByValidation h]
  | unknown text =>
    simp [hstrategy] at h

end Contributions

/-- What every strategy says of the shares: they are the whole, but for a combination into which no
key element of any result has come through; there all the shares are nothing. -/
theorem contributions_whole_iff (f : Format) (mergeTime : Rat) (results : List ResultRef)
    (task : TaskEntity) (options : MergeOptions) (m : MergedResult)
    (hdistinct : (results.map ResultRef.ref).Nodup)
    (h : merge f mergeTime results task options = .ok m) :
    Whole (m.sources.map Source.contribution) ↔
      ¬ (options.strategy = .COMBINE ∧ 2 ≤ results.length ∧
        Barren results (combineSections (extractSections results) task)) := by
  obtain _ | ⟨first, _ | ⟨second, rest⟩⟩ := results
  · cases h
  · cases h
    refine iff_of_true ⟨by simp [singleResultToMerged], by simp [singleResultToMerged]⟩ ?_
    rintro ⟨-, hlength, -⟩
    cases hlength with
    | step hlength => cases hlength
  · obtain ⟨merged, hby, rfl⟩ := mergeBy_of_merge h
    rw [whole_mergeBy hdistinct mem_cons_self hby]
    simp

def resultOf (ref : Nat) (adapter : AdapterType) (output : String) : ResultRef :=
  ⟨ref, {
    id := ofString "result_" ++ [0x30 + ref.toUInt16]
    taskId := TaskEntity.freshProps.id
    output := ofString output
    adapter := adapter
    metadata := { executionTime := 1000 }
    createdAt := 0 }⟩

def Format.plain : Format := ⟨.plain, fun _ => ofString "n", fun _ => ofString "n"⟩

def shortAnswers : List ResultRef := [resultOf 0 .claude "Yes.", resultOf 1 .gemini "No."]

theorem contributions_whole_iff_shortAnswers : ∃ m,
    merge .plain 1 shortAnswers (.new TaskEntity.freshProps) { strategy := .COMBINE } = .ok m ∧
    Whole (m.sources.map Source.contribution) := by
  have hincluded : includes (combineSections (extractSections shortAnswers)
      (.new TaskEntity.freshProps)) (ofString "Yes.") = true := by decide +kernel
  refine ⟨_, rfl, (contributions_whole_iff .plain 1 shortAnswers (.new TaskEntity.freshProps)
    { strategy := .COMBINE } _ (by decide) rfl).mpr ?_⟩
  rintro ⟨-, -, hbarren⟩
  have hnot := hbarren (resultOf 0 .claude "Yes.") mem_cons_self (ofString "Yes.") (by decide)
  simp [hincluded] at hnot

theorem combine_nothing : ∃ m, merge .plain 1 [resultOf 0 .claude "yes", resultOf 1 .gemini "no"]
      (.new TaskEntity.freshProps) { strategy := .COMBINE } = .ok m ∧
    m.output = ofString "yes\n\nno" ∧ m.sources = [⟨.claude, 0⟩, ⟨.gemini, 0⟩] := by
  refine ⟨_, rfl, ?_, ?_⟩
  · decide +kernel
  · decide +kernel

end Bridge.Results
