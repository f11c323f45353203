import Bridge.Lib.Averages
import Bridge.Results.Merger

/-!
# How sure a merge is

The confidence of a merged result is a share of words or of key elements, a quality score, or an
average of these with a bonus; each strategy has its own formula, and all of them end between 0 and
1 (`confidence_isShare`).
-/

namespace Bridge.Results

open Lib Utf16 Domain List Option

namespace Checked

variable (f : Format)

variable (results : List ResultRef) (task : TaskEntity) (options : MergeOptions)

def areSimilar (str1 str2 : Units) : Option Bool :=
  let words1 := words f.lowerCase str1
  let words2 := words f.lowerCase str2
  (div (words1 ∩ words2).card ((min words1.card words2.card : Nat) : Rat)).map fun similarity =>
    decide (7 / 10 < similarity)

def findCommonElements : Option (List Units) :=
  let allElements := results.map fun r => extractKeyElements r.result.output
  (allElements.headD []).filterM fun element =>
    allElements.allM fun elements => elements.anyM fun e => areSimilar f e element

def calculateSimilarity (output1 output2 : Units) : Option Rat :=
  let words1 := words f.lowerCase output1
  let words2 := words f.lowerCase output2
  div (words1 ∩ words2).card (words1 ∪ words2).card

def calculateConsensusConfidence : Option Rat :=
  let compared := pairs (results.map (·.result.output))
  if compared.length = 0 then some 0
  else do
    let similarities ← compared.mapM fun p => calculateSimilarity f p.1 p.2
    div similarities.sum compared.length

def calculateContributions (combined : Units) : Option (List Rat) :=
  let contributions := results.map (survivors combined)
  let total := contributions.sum
  contributions.mapM fun c : Nat => if 0 < total then (div c total).map (· * 100) else some 0

def calculateCombinedConfidence : Option Rat := do
  let avgQuality ← div (results.map (·.result.getQualityScore)).sum results.length
  let confidence ← calculateConsensusConfidence f results
  some (min 1 (avgQuality + confidence * (1 / 5)))

def validateResult (primary validator : ResultEntity) : Option Rat := do
  let primaryElements := extractKeyElements primary.output
  let validatorElements := extractKeyElements validator.output
  let confirmed ← primaryElements.filterM fun element =>
    validatorElements.anyM fun v => areSimilar f element v
  if 0 < primaryElements.length then div confirmed.length primaryElements.length else some 0

def mergeByConsensus (first : ResultRef) (results : List ResultRef) : Option MergedResult := do
  let commonElements ← findCommonElements f results
  let consensusReached := decide (0 < commonElements.length)
  let confidence ← calculateConsensusConfidence f results
  let best := selectBestResult first results none
  let contributions ← results.mapM fun r =>
    if consensusReached then div 100 results.length else some (byOne best r)
  some {
    output :=
      if consensusReached then formatConsensusOutput commonElements results else best.result.output
    strategy := .CONSENSUS
    sources := List.zipWith (fun r contribution => ⟨r.result.adapter, contribution⟩) results
      contributions
    confidence := confidence
    totalExecutionTime := sumExecutionTime results
    mergeTime := 0
    consensus := some consensusReached }

def mergeByCombining : Option MergedResult := do
  let combined := combineSections (extractSections results) task
  let contributions ← calculateContributions results combined
  let confidence ← calculateCombinedConfidence f results
  some {
    output := if options.formatOutput then formatCombinedOutput combined else combined
    strategy := .COMBINE
    sources := List.zipWith (fun r contribution => ⟨r.result.adapter, contribution⟩) results
      contributions
    confidence := confidence
    totalExecutionTime := sumExecutionTime results
    mergeTime := 0 }

def mergeByValidation : List ResultRef → Option (Except Thrown MergedResult)
  | [primary, validator] => do
    let validationScore ← validateResult f primary.result validator.result
    some (.ok {
      output := formatValidatedOutput f primary.result validator.result validationScore
      strategy := .VALIDATE
      sources := [⟨primary.result.adapter, 70⟩, ⟨validator.result.adapter, 30⟩]
      confidence := validationScore
      totalExecutionTime := sumExecutionTime [primary, validator]
      mergeTime := 0
      validationScore := some validationScore })
  | _ => some (.error (.error "Validation merge requires exactly 2 results"))

def mergeBy (first : ResultRef) (results : List ResultRef) (task : TaskEntity)
    (options : MergeOptions) : Option (Except Thrown MergedResult) :=
  match options.strategy with
  | .CONSENSUS => (mergeByConsensus f first results).map .ok
  | .BEST_OF => some (.ok (mergeByBestOf first results options))
  | .COMBINE => (mergeByCombining f results task options).map .ok
  | .VALIDATE => mergeByValidation f results
  | .unknown text =>
    some (.error (.value (.text (ofString "Unknown merge strategy: " ++ text)) none))

def merge (mergeTime : Rat) (results : List ResultRef) (task : TaskEntity)
    (options : MergeOptions) : Option (Except Thrown MergedResult) :=
  match results with
  | [] => some (.error (.error "No results to merge"))
  | [r] => some (.ok (singleResultToMerged r options))
  | first :: second :: rest =>
    (mergeBy f first (first :: second :: rest) task options).map fun merged =>
      merged.map fun m => { m with mergeTime := mergeTime }

/-! ## No division stops -/

section Divisions

variable {f : Format}

theorem areSimilar_eq (str1 str2 : Units) :
    areSimilar f str1 str2 = some (Results.areSimilar f str1 str2) := by
  have hmin : ((min (words f.lowerCase str1).card (words f.lowerCase str2).card : Nat) : Rat) ≠
    0 := by
    have h1 := (words_nonempty f.lowerCase str1).card_pos
    have h2 := (words_nonempty f.lowerCase str2).card_pos
    exact Nat.cast_ne_zero.mpr (lt_min h1 h2).ne'
  simp only [areSimilar, div_eq_some hmin, map_some]
  rfl

theorem anyM_areSimilar (element : Units) (elements : List Units) :
    elements.anyM (fun e => areSimilar f e element) =
      some (elements.any fun e => Results.areSimilar f e element) := by
  simp only [areSimilar_eq]
  exact anyM_pure

theorem findCommonElements_eq (results : List ResultRef) :
    findCommonElements f results = some (Results.findCommonElements f results) := by
  have hall : ∀ (element : Units) (all : List (List Units)),
      all.allM (fun elements => elements.anyM fun e => areSimilar f e element) =
        some (all.all fun elements => elements.any fun e => Results.areSimilar f e element) := by
    intro element all
    simp only [anyM_areSimilar]
    exact allM_pure
  simp only [findCommonElements, hall]
  exact filterM_some _ _

theorem calculateSimilarity_eq (output1 output2 : Units) :
    calculateSimilarity f output1 output2 =
      some (Results.calculateSimilarity f output1 output2) := by
  have hne : ((words f.lowerCase output1 ∪ words f.lowerCase output2).card : Rat) ≠ 0 := by
    rw [Nat.cast_ne_zero, Finset.card_ne_zero]
    exact (words_nonempty f.lowerCase output1).mono Finset.subset_union_left
  exact div_eq_some hne

theorem calculateConsensusConfidence_eq (results : List ResultRef) :
    calculateConsensusConfidence f results =
      some (Results.calculateConsensusConfidence f results) := by
  unfold calculateConsensusConfidence Results.calculateConsensusConfidence
  generalize pairs (results.map (·.result.output)) = compared
  by_cases hnone : compared.length = 0
  · simp only [hnone, if_true]
  · have hmap : compared.mapM (fun p => calculateSimilarity f p.1 p.2) =
        some (compared.map fun p => Results.calculateSimilarity f p.1 p.2) := by
      simp only [calculateSimilarity_eq]
      exact mapM_pure
    simp only [hnone, if_false, hmap, bind_eq_bind, bind_some]
    exact div_eq_some (Nat.cast_ne_zero.mpr hnone)

theorem calculateContributions_eq (results : List ResultRef) (combined : Units) :
    calculateContributions results combined =
      some (Results.calculateContributions results combined) := by
  unfold calculateContributions Results.calculateContributions
  generalize results.map (survivors combined) = contributions
  by_cases htotal : 0 < contributions.sum
  · have hne : (contributions.sum : Rat) ≠ 0 := Nat.cast_ne_zero.mpr htotal.ne'
    simp only [htotal, if_true, div_eq_some hne, map_some]
    exact mapM_pure
  · simp only [htotal, if_false]
    exact mapM_pure

variable {results : List ResultRef}

theorem calculateCombinedConfidence_eq (h : results ≠ []) :
    calculateCombinedConfidence f results =
      some (Results.calculateCombinedConfidence f results) := by
  have hne : (results.length : Rat) ≠ 0 := by
    rw [Nat.cast_ne_zero]
    exact fun hnil => h (length_eq_zero_iff.mp hnil)
  simp only [calculateCombinedConfidence, div_eq_some hne, calculateConsensusConfidence_eq,
    bind_eq_bind, bind_some]
  rfl

theorem validateResult_eq (primary validator : ResultEntity) :
    validateResult f primary validator = some (Results.validateResult f primary validator) := by
  have hany : ∀ (element : Units) (elements : List Units),
      elements.anyM (fun v => areSimilar f element v) =
        some (elements.any fun v => Results.areSimilar f element v) := by
    intro element elements
    simp only [areSimilar_eq]
    exact anyM_pure
  simp only [validateResult, hany, filterM_some, bind_eq_bind, bind_some,
    Results.validateResult, countP_eq_length_filter]
  by_cases hlength : 0 < (extractKeyElements primary.output).length
  · simp only [hlength, if_true]
    exact div_eq_some (Nat.cast_ne_zero.mpr hlength.ne')
  · simp only [hlength, if_false]

theorem mergeByConsensus_eq {first : ResultRef} (h : results ≠ []) :
    mergeByConsensus f first results = some (Results.mergeByConsensus f first results) := by
  have hne : (results.length : Rat) ≠ 0 := by
    rw [Nat.cast_ne_zero]
    exact fun hnil => h (length_eq_zero_iff.mp hnil)
  have hshare : ∀ reached : Bool, results.mapM (fun r => if reached then div 100 results.length
        else some (byOne (selectBestResult first results none) r)) =
      some (results.map fun r => if reached then 100 / (results.length : Rat)
        else byOne (selectBestResult first results none) r) := by
    intro reached
    cases reached with
    | false => exact mapM_pure
    | true =>
      simp only [if_true, div_eq_some hne]
      exact mapM_pure
  simp only [mergeByConsensus, findCommonElements_eq, calculateConsensusConfidence_eq, hshare,
    bind_eq_bind, bind_some, zipWith_map_right, zipWith_self]
  rfl

theorem mergeByCombining_eq (h : results ≠ []) (task : TaskEntity) (options : MergeOptions) :
    mergeByCombining f results task options =
      some (Results.mergeByCombining f results task options) := by
  simp only [mergeByCombining, calculateContributions_eq, calculateCombinedConfidence_eq h,
    bind_eq_bind, bind_some]
  rfl

theorem mergeByValidation_eq (results : List ResultRef) :
    mergeByValidation f results = some (Results.mergeByValidation f results) := by
  obtain _ | ⟨primary, _ | ⟨validator, _ | ⟨third, rest⟩⟩⟩ := results
  · rfl
  · rfl
  · simp only [mergeByValidation, validateResult_eq, bind_eq_bind, bind_some]
    rfl
  · rfl

theorem mergeBy_eq (first : ResultRef) (h : results ≠ []) (task : TaskEntity)
    (options : MergeOptions) :
    mergeBy f first results task options = some (Results.mergeBy f first results task options) := by
  unfold mergeBy Results.mergeBy
  cases options.strategy with
  | CONSENSUS => simp [mergeByConsensus_eq h, map_some]
  | BEST_OF => rfl
  | COMBINE => simp [mergeByCombining_eq h, map_some]
  | VALIDATE => exact mergeByValidation_eq results
  | unknown text => rfl

/-- **No merge divides by zero.** -/
theorem merge_eq (mergeTime : Rat) (results : List ResultRef) (task : TaskEntity)
    (options : MergeOptions) :
    merge f mergeTime results task options = some (Results.merge f mergeTime results task
      options) := by
  obtain _ | ⟨first, _ | ⟨second, rest⟩⟩ := results
  · rfl
  · rfl
  · simp only [merge, mergeBy_eq first (cons_ne_nil _ _), map_some]
    rfl

end Divisions

end Checked

/-! ## Between none and all -/

section Shares

variable {f : Format} {first : ResultRef} {results : List ResultRef} {task : TaskEntity}
  {options : MergeOptions}

theorem isShare_getQualityScore (r : ResultEntity) : IsShare r.getQualityScore :=
  ⟨le_max_left 0 _, max_le zero_le_one (min_le_left 1 _)⟩

theorem isShare_calculateSimilarity (output1 output2 : Units) :
    IsShare (calculateSimilarity f output1 output2) :=
  isShare_div (Finset.card_le_card (Finset.inter_subset_left.trans Finset.subset_union_left))

theorem isShare_calculateConsensusConfidence (results : List ResultRef) :
    IsShare (calculateConsensusConfidence f results) := by
  simp only [calculateConsensusConfidence]
  split
  · exact isShare_zero
  · generalize pairs (results.map (·.result.output)) = compared
    have hmean := isShare_mean (l := compared.map fun p => calculateSimilarity f p.1 p.2) (by
      intro x hx
      obtain ⟨p, -, rfl⟩ := mem_map.mp hx
      exact isShare_calculateSimilarity p.1 p.2)
    rwa [mean, length_map] at hmean

theorem isShare_calculateCombinedConfidence (results : List ResultRef) :
    IsShare (calculateCombinedConfidence f results) := by
  have hquality := isShare_mean (l := results.map (·.result.getQualityScore)) (by
    intro x hx
    obtain ⟨r, -, rfl⟩ := mem_map.mp hx
    exact isShare_getQualityScore r.result)
  rw [mean, length_map] at hquality
  have hagreement := isShare_calculateConsensusConfidence (f := f) results
  refine ⟨le_min zero_le_one ?_, min_le_left 1 _⟩
  have hbonus : 0 ≤ calculateConsensusConfidence f results * (1 / 5) := by
    linarith [hagreement.1]
  linarith [hquality.1]

theorem isShare_validateResult (primary validator : ResultEntity) :
    IsShare (validateResult f primary validator) := by
  simp only [validateResult]
  split
  · exact isShare_div countP_le_length
  · exact isShare_zero

theorem isShare_mergeByValidation {m : MergedResult} (h : mergeByValidation f results = .ok m) :
    IsShare m.confidence := by
  obtain _ | ⟨primary, _ | ⟨validator, _ | ⟨third, rest⟩⟩⟩ := results
  · cases h
  · cases h
  · cases h
    exact isShare_validateResult primary.result validator.result
  · cases h

theorem isShare_mergeBy {m : MergedResult} (h : mergeBy f first results task options = .ok m) :
    IsShare m.confidence := by
  unfold mergeBy at h
  cases hstrategy : options.strategy with
  | CONSENSUS =>
    simp only [hstrategy] at h
    cases h
    exact isShare_calculateConsensusConfidence results
  | BEST_OF =>
    simp only [hstrategy] at h
    cases h
    exact isShare_getQualityScore _
  | COMBINE =>
    simp only [hstrategy] at h
    cases h
    exact isShare_calculateCombinedConfidence results
  | VALIDATE =>
    simp only [hstrategy] at h
    exact isShare_mergeByValidation h
  | unknown text =>
    simp [hstrategy] at h

end Shares

/-- Whatever is merged, the confidence is a share, and no division on the way is by zero. -/
theorem confidence_isShare (f : Format) (mergeTime : Rat) (results : List ResultRef)
    (task : TaskEntity)
    (options : MergeOptions) (m : MergedResult)
      (h : merge f mergeTime results task options = .ok m) :
    Checked.merge f mergeTime results task options = some (.ok m) ∧ 0 ≤ m.confidence ∧
      m.confidence ≤ 1 := by
  refine ⟨by rw [Checked.merge_eq, h], ?_⟩
  obtain _ | ⟨first, _ | ⟨second, rest⟩⟩ := results
  · cases h
  · cases h
    exact isShare_getQualityScore first.result
  · obtain ⟨merged, hby, rfl⟩ := mergeBy_of_merge h
    exact (isShare_mergeBy hby : IsShare merged.confidence)

theorem confidence_isShare_shortAnswers : ∃ m,
    merge .plain 1 shortAnswers (.new TaskEntity.freshProps) { strategy := .COMBINE } = .ok m ∧
    Checked.merge .plain 1 shortAnswers (.new TaskEntity.freshProps) { strategy := .COMBINE } =
      some (.ok m) ∧ 0 ≤ m.confidence ∧ m.confidence ≤ 1 :=
  ⟨_, rfl, confidence_isShare .plain 1 shortAnswers (.new TaskEntity.freshProps)
    { strategy := .COMBINE } _ rfl⟩

end Bridge.Results
