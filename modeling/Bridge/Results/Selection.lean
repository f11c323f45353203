import Bridge.Results.Merger

/-!
# Which result is the best

The quality score goes down with the retries and with a slow execution, and is averaged with the
validation score, if there is one. A validation score of zero counts as none: it is not averaged in,
and so the worst validation can score higher than a better one. That is the only break in the order:
`quality_monotone` says exactly when it shows.
-/

namespace Bridge.Results

open Lib Utf16 Domain

/-! ## The parts of the score -/

section Score

variable {m m' : ResultMetadata} {score score' v : Rat} {r r' : ResultEntity}

def retried (m : ResultMetadata) : Rat := 1 - 1 / 10 * m.retryCount.getD 0

/-- The average with a validation score, unless that is zero. -/
def validated (score : Rat) : Option Rat → Rat
  | none => score
  | some v => if v = 0 then score else (score + v) / 2

def slowness (m : ResultMetadata) : Rat := if 10000 < m.executionTime then 1 / 10 else 0

def clamp (x : Rat) : Rat := max 0 (min 1 x)

theorem getQualityScore_eq (r : ResultEntity) : r.getQualityScore =
      clamp (validated (retried r.metadata) r.metadata.validationScore - slowness r.metadata) := by
  have hslow : ∀ score : Rat, (if 10000 < r.metadata.executionTime then score - 1 / 10 else score) =
      score - slowness r.metadata := by
    intro score
    unfold slowness
    split
    · rfl
    · rw [sub_zero]
  simp only [ResultEntity.getQualityScore, Rounding.exact_round, hslow, retried, clamp]
  refine congrArg (fun x => max 0 (min 1 (x - slowness r.metadata))) ?_
  -- a count of zero takes nothing away, and a score of zero is passed over on both sides
  cases r.metadata.retryCount with
  | none =>
    cases r.metadata.validationScore with
    | none => simp [validated]
    | some v => by_cases hv : v = 0 <;> simp [Option.filter, validated, hv]
  | some n =>
    cases r.metadata.validationScore with
    | none => by_cases hn : n = 0 <;> simp [Option.filter, validated, hn]
    | some v =>
      by_cases hn : n = 0 <;> by_cases hv : v = 0 <;> simp [Option.filter, validated, hn, hv]

theorem clamp_mono {x y : Rat} (h : x ≤ y) : clamp x ≤ clamp y :=
  max_le_max le_rfl (min_le_min le_rfl h)

theorem clamp_of_nonpos {x : Rat} (h : x ≤ 0) : clamp x = 0 :=
  max_eq_left ((min_le_right 1 x).trans h)

theorem clamp_lt {x y : Rat} (hy : 0 < y) (hle : y ≤ 1) (h : x < y) : clamp x < clamp y := by
  have hclamp : clamp y = y := by rw [clamp, min_eq_right hle, max_eq_right hy.le]
  rw [hclamp]
  exact max_lt hy ((min_le_right 1 x).trans_lt h)

theorem validated_mono (h : score ≤ score') (o : Option Rat) :
    validated score o ≤ validated score' o := by
  cases o with
  | none => exact h
  | some v =>
    simp only [validated]
    split
    · exact h
    · linarith

theorem slowness_mono (h : m.executionTime ≤ m'.executionTime) : slowness m ≤ slowness m' := by
  unfold slowness
  split
  · rename_i hslow
    rw [if_pos (hslow.trans_le h)]
  · split <;> norm_num

theorem slowness_nonneg (m : ResultMetadata) : 0 ≤ slowness m := by
  unfold slowness
  split <;> norm_num

/-! ## One field at a time -/

theorem getQualityScore_retryCount
    (hmeta : r'.metadata = { r.metadata with retryCount := r'.metadata.retryCount })
    (h : r.metadata.retryCount.getD 0 ≤ r'.metadata.retryCount.getD 0) :
    r'.getQualityScore ≤ r.getQualityScore := by
  have hscore : r'.metadata.validationScore = r.metadata.validationScore := by rw [hmeta]
  have htime : r'.metadata.executionTime = r.metadata.executionTime := by rw [hmeta]
  have hretried : retried r'.metadata ≤ retried r.metadata := by
    unfold retried
    linarith
  have hslow : slowness r'.metadata = slowness r.metadata := by rw [slowness, slowness, htime]
  rw [getQualityScore_eq, getQualityScore_eq, hscore, hslow]
  exact clamp_mono (sub_le_sub_right (validated_mono hretried _) _)

theorem getQualityScore_executionTime
    (hmeta : r'.metadata = { r.metadata with executionTime := r'.metadata.executionTime })
    (h : r.metadata.executionTime ≤ r'.metadata.executionTime) :
    r'.getQualityScore ≤ r.getQualityScore := by
  have hscore : r'.metadata.validationScore = r.metadata.validationScore := by rw [hmeta]
  have hretried : retried r'.metadata = retried r.metadata := by rw [hmeta]; rfl
  rw [getQualityScore_eq, getQualityScore_eq, hscore, hretried]
  exact clamp_mono (sub_le_sub_left (slowness_mono h) _)

variable {adapter : AdapterType}

section Validation

variable (h : r.setValidation adapter v = .ok r')
include h

theorem setValidation_eq_ok : 0 ≤ v ∧ v ≤ 1 ∧ r' = { r with metadata :=
      { r.metadata with validatedBy := some adapter, validationScore := some v } } := by
  unfold ResultEntity.setValidation at h
  split at h
  · cases h
  · rename_i hrange
    rw [not_or, not_lt, not_lt] at hrange
    exact ⟨hrange.1, hrange.2, (Except.ok.inj h).symm⟩

theorem adapter_setValidation : r'.adapter = r.adapter := by
  obtain ⟨-, -, rfl⟩ := setValidation_eq_ok h
  rfl

theorem getQualityScore_setValidation :
    r'.getQualityScore = clamp (validated (retried r.metadata) (some v) - slowness r.metadata) := by
  obtain ⟨-, -, rfl⟩ := setValidation_eq_ok h
  rw [getQualityScore_eq]
  rfl

end Validation

theorem clamp_le_clamp_average {p : Rat} (hle : score ≤ 1) (hp : 0 ≤ p) :
    clamp (score - p) ≤ clamp ((score + v) / 2 - p) ↔ score ≤ v ∨ score ≤ p := by
  constructor
  · intro h
    by_contra hnot
    rw [not_or, not_le, not_le] at hnot
    have hlt : clamp ((score + v) / 2 - p) < clamp (score - p) :=
      clamp_lt (by linarith) (by linarith) (by linarith)
    exact absurd h (not_le.mpr hlt)
  · rintro (h | h)
    · exact clamp_mono (by linarith)
    · rw [clamp_of_nonpos (by linarith)]
      exact le_max_left 0 _

theorem getQualityScore_le_iff {adapter adapter' : AdapterType} {v' : Rat}
    {worse better : ResultEntity}
    (hretry : 0 ≤ r.metadata.retryCount.getD 0) (hworse : r.setValidation adapter v = .ok worse)
    (hbetter : r.setValidation adapter' v' = .ok better) (h : v ≤ v') :
    worse.getQualityScore ≤ better.getQualityScore ↔
      v ≠ 0 ∨ v' = 0 ∨ retried r.metadata ≤ v' ∨ retried r.metadata ≤ slowness r.metadata := by
  have hnonneg : 0 ≤ v := (setValidation_eq_ok hworse).1
  have hle : retried r.metadata ≤ 1 := by
    unfold retried
    linarith
  rw [getQualityScore_setValidation hworse, getQualityScore_setValidation hbetter]
  by_cases hv : v = 0
  · by_cases hv' : v' = 0
    · simp [hv, hv']
    · have hboth : validated (retried r.metadata) (some v) = retried r.metadata ∧
          validated (retried r.metadata) (some v') = (retried r.metadata + v') / 2 :=
        ⟨if_pos hv, if_neg hv'⟩
      rw [hboth.1, hboth.2, clamp_le_clamp_average hle (slowness_nonneg _)]
      simp [hv, hv']
  · have hv' : v' ≠ 0 := by
      have hpos : 0 < v := lt_of_le_of_ne hnonneg (Ne.symm hv)
      exact (hpos.trans_le h).ne'
    refine iff_of_true (clamp_mono (sub_le_sub_right ?_ _)) (.inl hv)
    have hboth : validated (retried r.metadata) (some v) = (retried r.metadata + v) / 2 ∧
        validated (retried r.metadata) (some v') = (retried r.metadata + v') / 2 :=
      ⟨if_neg hv, if_neg hv'⟩
    rw [hboth.1, hboth.2]
    linarith

end Score

theorem firstMax_preferredScore (preferredAdapter : Option AdapterType) (first : ResultRef)
    (rest : List ResultRef) : FirstMax (preferredScore .exact preferredAdapter) (first :: rest)
      (selectBestResult first (first :: rest) preferredAdapter) := by
  have hfirst : keepBetter (preferredScore .exact preferredAdapter)
    (first, first.result.getQualityScore) first =
      (first, preferredScore .exact preferredAdapter first) := by
    simp only [keepBetter, preferredScore, Rounding.exact_round]
    split
    · exact if_pos (by linarith)
    · exact if_neg (lt_irrefl _)
  have hstart : FirstMax (preferredScore .exact preferredAdapter) [first] first :=
    .cons_of_le (by simp)
  have hscan := hstart.foldl_keepBetter rest
  rw [selectBestResult, List.foldl_cons, hfirst]
  exact hscan

theorem getQualityScore_le_selected {preferredAdapter : Option AdapterType} {first r : ResultRef}
    {rest : List ResultRef} (hr : r ∈ first :: rest)
    (hadapter : r.result.adapter = (selectBestResult first (first :: rest)
      preferredAdapter).result.adapter) :
    r.result.getQualityScore ≤
      (selectBestResult first (first :: rest) preferredAdapter).result.getQualityScore := by
  have hle := (firstMax_preferredScore preferredAdapter first rest).le hr
  simp only [preferredScore, Rounding.exact_round] at hle
  rw [hadapter] at hle
  split at hle
  · linarith
  · exact hle

/-- What the score is monotone in, and where it is not: more retries and a longer execution never
score higher; a better validation scores lower exactly if the worse one is zero and what the retries
have left is more than the better one and than a slow execution takes. -/
theorem quality_monotone (r : ResultEntity) :
    (∀ r' : ResultEntity, r'.metadata = { r.metadata with retryCount := r'.metadata.retryCount } →
      r.metadata.retryCount.getD 0 ≤ r'.metadata.retryCount.getD 0 →
      r'.getQualityScore ≤ r.getQualityScore) ∧
    (∀ r' : ResultEntity, r'.metadata = { r.metadata with executionTime :=
      r'.metadata.executionTime } →
      r.metadata.executionTime ≤ r'.metadata.executionTime →
      r'.getQualityScore ≤ r.getQualityScore) ∧
    ∀ (worse better : ResultEntity) (adapter adapter' : AdapterType) (v v' : Rat),
      0 ≤ r.metadata.retryCount.getD 0 → r.setValidation adapter v = .ok worse →
      r.setValidation adapter' v' = .ok better → v ≤ v' →
      (worse.getQualityScore ≤ better.getQualityScore ↔
        v ≠ 0 ∨ v' = 0 ∨ retried r.metadata ≤ v' ∨ retried r.metadata ≤ slowness r.metadata) ∧
      ∀ (preferredAdapter : Option AdapterType) (first other : ResultRef) (rest : List ResultRef),
        worse.getQualityScore ≤ better.getQualityScore → other ∈ first :: rest →
        other.result = better →
        (selectBestResult first (first :: rest) preferredAdapter).result = worse →
        worse.getQualityScore = better.getQualityScore := by
  refine ⟨?_, ?_, ?_⟩
  · intro r' hmeta h
    exact getQualityScore_retryCount hmeta h
  · intro r' hmeta h
    exact getQualityScore_executionTime hmeta h
  intro worse better adapter adapter' v v' hretry hworse hbetter hle
  refine ⟨getQualityScore_le_iff hretry hworse hbetter hle, ?_⟩
  intro preferredAdapter first other rest hquality hmem hother hselected
  have hadapter : other.result.adapter =
      (selectBestResult first (first :: rest) preferredAdapter).result.adapter := by
    rw [hother, hselected, adapter_setValidation hworse, adapter_setValidation hbetter]
  have hback := getQualityScore_le_selected hmem hadapter
  rw [hother, hselected] at hback
  exact le_antisymm hquality hback

theorem worst_validation_selected : ∃ half zero,
    (resultOf 0 .claude "Yes.").result.setValidation .gemini (1 / 2) = .ok half ∧
    (resultOf 0 .claude "Yes.").result.setValidation .gemini 0 = .ok zero ∧
    half.getQualityScore = 3 / 4 ∧ zero.getQualityScore = 1 ∧
    (selectBestResult ⟨0, half⟩ [⟨0, half⟩, ⟨1, zero⟩] none).ref = 1 := by
  refine ⟨_, _, if_neg (by norm_num), if_neg (by norm_num), ?_, ?_, ?_⟩
  · decide +kernel
  · decide +kernel
  · decide +kernel

end Bridge.Results
