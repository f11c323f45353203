import Bridge.Compression.Service

/-!
# When a context is compressed

What the constructor of `CompressedContext` demands, followed back to the adapters: every phase
finds an embedding where one is promised, no answer that is taken for a summary is blank, and the
three phases together have not grown.
-/

namespace Bridge.Compression

open Lib Utf16 List

section Texts

variable {text data : Text}

theorem decode_ne_nil (h : text ≠ []) : decode text ≠ [] := by
  unfold decode
  split
  · exact absurd rfl h
  · simp
  · split_ifs <;> simp

theorem byteLength_pos (h : text ≠ []) : 0 < byteLength text := by
  apply length_pos_of_ne_nil
  intro hnil
  have hdecode : decode text = decode [] := utf8_eq_iff.mp hnil
  exact decode_ne_nil h hdecode

theorem joinLines_ne_nil {lines : List Text} (h : text ≠ []) : joinLines (text :: lines) ≠ [] := by
  cases lines with
  | nil => simpa [joinLines] using h
  | cons l ls => simp [joinLines, intercalate, intersperse, h]

theorem line_ne_nil {label : String} {value : Text} (h : ofString label ≠ []) :
    line label value ≠ [] :=
  append_ne_nil_of_left_ne_nil h value

theorem extractAnalysisData_ne_nil {task : TaskData} (h : extractAnalysisData task = .ok data) :
    data ≠ [] := by
  unfold extractAnalysisData at h
  cases hcontext : optionalLine "Context: " task.context with
  | error message =>
    rw [hcontext] at h
    cases h
  | ok context =>
    cases hconstraints : optionalLine "Constraints: " task.constraints with
    | error message =>
      rw [hcontext, hconstraints] at h
      cases h
    | ok constraints =>
      rw [hcontext, hconstraints] at h
      cases h
      apply joinLines_ne_nil
      exact line_ne_nil (by decide)

theorem extractPhaseData_ne_nil {d : Details} {input : CompressionInput} {data : Phase → Text}
    (h : extractPhaseData d input = .ok data) (phase : Phase) : data phase ≠ [] := by
  unfold extractPhaseData at h
  cases hanalysis : extractAnalysisData input.task with
  | error message =>
    rw [hanalysis] at h
    cases h
  | ok analysis =>
    rw [hanalysis] at h
    cases h
    cases phase with
    | analysis => exact extractAnalysisData_ne_nil hanalysis
    | routing =>
      apply joinLines_ne_nil
      exact line_ne_nil (by decide)
    | execution =>
      apply joinLines_ne_nil
      exact line_ne_nil (by decide)

end Texts

section Summaries

variable {d : Details} {config : CompressionConfig} {data : Text} {maxLength : Rat}

theorem substring_ne_nil (hdata : data ≠ []) : substring data maxLength ≠ [] ↔ 1 ≤ maxLength := by
  have hfloor : 0 < ⌊maxLength⌋.toNat ↔ 1 ≤ maxLength := by
    rw [Int.lt_toNat, Nat.cast_zero, Int.floor_pos]
  rw [← hfloor, substring, Ne, take_eq_nil_iff, not_or]
  exact ⟨fun h => Nat.pos_of_ne_zero h.1, fun h => ⟨h.ne', hdata⟩⟩

theorem foldl_summary_eq_nil (hmax : maxLength < 1) (items : List (Text × Rat)) :
    items.foldl (fun summary item =>
      if (summary.length + item.1.length + 2 : Rat) ≤ maxLength then
        summary ++ (if summary = [] then [] else ofString ". ") ++ item.1
      else summary) [] = [] := by
  induction items with
  | nil => rfl
  | cons item items ih =>
    have hlength : (0 : Rat) ≤ item.1.length := Nat.cast_nonneg _
    have hnot : ¬ ((([] : Text).length : Rat) + item.1.length + 2 ≤ maxLength) := by
      rw [length_nil, Nat.cast_zero]
      linarith
    rw [foldl_cons, if_neg hnot]
    exact ih

theorem extractiveSummary_ne_nil (hdata : data ≠ []) :
    extractiveSummary d config data maxLength ≠ [] ↔ 1 ≤ maxLength := by
  unfold extractiveSummary
  split_ifs with hnone
  · exact substring_ne_nil hdata
  · dsimp only
    split_ifs with hempty
    · exact substring_ne_nil hdata
    · refine ⟨fun _ => ?_, fun _ => hempty⟩
      by_contra hmax
      exact hempty (foldl_summary_eq_nil (not_le.mp hmax) _)

/-- The answer that is taken for a summary is not blank; if none is, there is room for a character.
-/
def Speaks (d : Details) (config : CompressionConfig) (w : PhaseWorld) (data : Text) : Prop :=
  adapterSummary d config w data ≠ some [] ∧
    (adapterSummary d config w data = none → 1 ≤ maxLengthOr config 200)

theorem generateSummary_ne_nil {w : PhaseWorld} (hdata : data ≠ []) :
    generateSummary d config w data ≠ [] ↔ Speaks d config w data := by
  unfold generateSummary Speaks
  cases adapterSummary d config w data with
  | none => simpa using extractiveSummary_ne_nil hdata
  | some summary => simp

end Summaries

section Checks

theorem ite_error_eq_ok {α : Type} {p : Prop} [Decidable p] {message : String}
    {x : Except String α} {a : α} :
    (if p then .error message else x) = .ok a ↔ ¬ p ∧ x = .ok a := by
  split_ifs with h <;> simp [h]

theorem seq_eq_ok {α : Type} {x : Except String Unit} {y : Except String α} {a : α} :
    (x >>= fun _ => y) = .ok a ↔ x = .ok () ∧ y = .ok a := by
  cases x <;> simp [bind, Except.bind]

def Promised (type : CompressionType) (phase : CompressedPhaseData) : Prop :=
  (type ≠ .summary → phase.embedding ≠ none) ∧ (type ≠ .embeddings → hasSummary phase = true)

theorem validatePhase_eq_ok {type : CompressionType} {name : String} {phase : CompressedPhaseData} :
    validatePhase type name phase = .ok () ↔ Promised type phase := by
  unfold validatePhase Promised
  cases type <;> cases hasSummary phase <;> cases phase.embedding <;> simp

theorem validateMetadata_eq_ok {m : CompressionMetadata} :
    validateMetadata m = .ok () ↔ (0 ≤ m.compressionRatio ∧ m.compressionRatio ≤ 1) ∧
      0 < m.originalSize ∧ 0 < m.compressedSize ∧ 0 ≤ m.processingTime := by
  unfold validateMetadata
  simp only [ite_error_eq_ok, not_or, not_lt, not_le, and_true]

theorem validate_eq_ok {c : CompressedContext} :
    c.validate = .ok () ↔ trim c.id ≠ [] ∧ (∀ phase, Promised c.compressionType (c.phases phase)) ∧
      validateMetadata c.metadata = .ok () := by
  have hid : validateId c.id = .ok () ↔ trim c.id ≠ [] := by
    unfold validateId
    rw [ite_error_eq_ok, and_iff_left rfl]
  unfold CompressedContext.validate
  rw [seq_eq_ok, seq_eq_ok, seq_eq_ok, seq_eq_ok, hid, validatePhase_eq_ok, validatePhase_eq_ok,
    validatePhase_eq_ok]
  constructor
  · rintro ⟨hid, hanalysis, hrouting, hexecution, hmetadata⟩
    refine ⟨hid, ?_, hmetadata⟩
    intro phase
    cases phase with
    | analysis => exact hanalysis
    | routing => exact hrouting
    | execution => exact hexecution
  · rintro ⟨hid, hphases, hmetadata⟩
    exact ⟨hid, hphases .analysis, hphases .routing, hphases .execution, hmetadata⟩

end Checks

section Phases

variable {s : EmbeddingServiceConfig} {d : Details} {config : CompressionConfig} {w : PhaseWorld}
  {data : Text} {phase : Phase}

/-- The bytes of a summary: of the answer that is taken for one, trimmed, or of what is extracted.
-/
def summarySize (d : Details) (config : CompressionConfig) (w : PhaseWorld) (data : Text) : Nat :=
  byteLength ((adapterSummary d config w data).getD
    (extractiveSummary d config data (maxLengthOr config 200)))

/-- The bytes a phase is compressed to, by the type of the compression. -/
def phaseSize (s : EmbeddingServiceConfig) (d : Details) (config : CompressionConfig)
    (w : PhaseWorld) (data : Text) (phase : Phase) : Nat :=
  match config.type with
  | .embeddings => foundDimensions s d.stringify w.toEmbeddingWorld data * 4 +
      byteLength (d.minimalMetadata data phase)
  | .summary => summarySize d config w data
  | .hybrid => foundDimensions s d.stringify w.toEmbeddingWorld data * 4 +
      summarySize d config w data

theorem compressPhase_summary (htype : config.type = .summary) :
    compressPhase s d config w data phase = ⟨none, some (generateSummary d config w data),
      byteLength data, phaseSize s d config w data phase⟩ := by
  simp [compressPhase, tryCompressPhase, phaseSize, summarySize, generateSummary, htype, bind,
    Except.bind]

theorem compressPhase_embedded {result : EmbeddingResult} (phase : Phase)
    (htype : config.type ≠ .summary)
    (h : (generateEmbedding s d.stringify w.toEmbeddingWorld data none).1 = .ok result) :
    compressPhase s d config w data phase = ⟨some result.embedding,
      if config.type = .hybrid then some (generateSummary d config w data) else none,
      byteLength data, phaseSize s d config w data phase⟩ := by
  have hdimensions := dimensions_generateEmbedding s d.stringify h
  cases hc : config.type with
  | summary => exact absurd hc htype
  | embeddings | hybrid =>
    simp [compressPhase, tryCompressPhase, phaseSize, summarySize, generateSummary, hc, h,
      hdimensions, bind, Except.bind, Except.map]

theorem compressPhase_truncated {message : String} (phase : Phase) (htype : config.type ≠ .summary)
    (h : (generateEmbedding s d.stringify w.toEmbeddingWorld data none).1 = .error message) :
    (compressPhase s d config w data phase).embedding = none := by
  cases hc : config.type with
  | summary => exact absurd hc htype
  | embeddings | hybrid => simp [compressPhase, tryCompressPhase, hc, h, bind,
    Except.bind, Except.map]

theorem hasSummary_eq_true {p : CompressedPhaseData} {text : Text} (h : p.summary = some text) :
    hasSummary p = true ↔ text ≠ [] := by
  unfold hasSummary
  rw [h]
  cases text <;> simp [Option.filter]

/-- **What is compressed as promised.** -/
theorem promised_compressPhase (hdata : data ≠ []) :
    Promised config.type (compressPhase s d config w data phase) ↔
      (config.type ≠ .summary → FindsEmbedding s d.stringify w.toEmbeddingWorld data) ∧
      (config.type ≠ .embeddings → Speaks d config w data) := by
  rw [← generateEmbedding_eq_ok, ← generateSummary_ne_nil hdata]
  unfold Promised
  by_cases htype : config.type = .summary
  · rw [compressPhase_summary htype, hasSummary_eq_true rfl]
    simp [htype]
  · cases hresult : (generateEmbedding s d.stringify w.toEmbeddingWorld data none).1 with
    | error message =>
      have hnone := compressPhase_truncated phase htype hresult
      simp [htype, hnone]
    | ok result =>
      rw [compressPhase_embedded phase htype hresult]
      cases hc : config.type with
      | summary => exact absurd hc htype
      | embeddings => simp
      | hybrid =>
        rw [if_pos rfl, hasSummary_eq_true rfl]
        simp

/-- **The size of what is compressed as promised.** -/
theorem compressedSize_of_promised
    (h : Promised config.type (compressPhase s d config w data phase)) :
    (compressPhase s d config w data phase).compressedSize = phaseSize s d config w data phase ∧
      0 < phaseSize s d config w data phase := by
  by_cases htype : config.type = .summary
  · have hsummary := h.2 (by rw [htype]; decide)
    rw [compressPhase_summary htype] at hsummary ⊢
    refine ⟨rfl, ?_⟩
    rw [phaseSize, htype]
    exact byteLength_pos ((hasSummary_eq_true rfl).mp hsummary)
  · cases hresult : (generateEmbedding s d.stringify w.toEmbeddingWorld data none).1 with
    | error message =>
      exact absurd (compressPhase_truncated phase htype hresult) (h.1 htype)
    | ok result =>
      rw [compressPhase_embedded phase htype hresult]
      refine ⟨rfl, ?_⟩
      have hpos : 0 < foundDimensions s d.stringify w.toEmbeddingWorld data :=
        dimensions_generateEmbedding s d.stringify hresult ▸ result.dimensions_pos
      rw [phaseSize]
      cases hc : config.type with
      | summary => exact absurd hc htype
      | embeddings | hybrid => exact Nat.add_pos_left (Nat.mul_pos hpos (Nat.succ_pos _)) _

end Phases

section Contexts

variable (s : EmbeddingServiceConfig) (d : Details) (config : CompressionConfig) (w : CallWorld)
  (input : CompressionInput)

theorem trim_generateContextId (taskId suffix : Text) :
    trim (generateContextId taskId suffix) ≠ [] := by
  intro h
  have hmem : 0x63 ∈ generateContextId taskId suffix := by
    apply mem_append_left
    apply mem_append_left
    apply mem_append_left
    decide
  exact absurd (trim_eq_nil.mp h 0x63 hmem) (by decide)

theorem compressionRatio_mem_iff {original compressed : Nat} (h : 0 < original) :
    (0 ≤ (compressed : Rat) / original ∧ (compressed : Rat) / original ≤ 1) ↔
      compressed ≤ original := by
  have hpos : (0 : Rat) < original := Nat.cast_pos.mpr h
  rw [div_le_one hpos, Nat.cast_le]
  exact and_iff_right (div_nonneg (Nat.cast_nonneg _) hpos.le)

theorem validate_contextOf {data : Phase → Text} (hdata : ∀ phase, data phase ≠ []) :
    (contextOf s d config w input data).validate = .ok () ↔ (config.type ≠ .summary → ∀ phase,
        FindsEmbedding s d.stringify (w.phase phase).toEmbeddingWorld (data phase)) ∧
      (config.type ≠ .embeddings → ∀ phase, Speaks d config (w.phase phase) (data phase)) ∧
      total (fun phase => phaseSize s d config (w.phase phase) (data phase) phase) ≤
        total (fun phase => byteLength (data phase)) ∧
      0 ≤ w.processingTime := by
  have hpromised : (∀ phase, Promised config.type (compressPhases s d config w data phase)) ↔
      (config.type ≠ .summary → ∀ phase,
        FindsEmbedding s d.stringify (w.phase phase).toEmbeddingWorld (data phase)) ∧
      (config.type ≠ .embeddings → ∀ phase, Speaks d config (w.phase phase) (data phase)) := by
    constructor
    · intro h
      exact ⟨fun ht phase => ((promised_compressPhase (hdata phase)).mp (h phase)).1 ht,
        fun ht phase => ((promised_compressPhase (hdata phase)).mp (h phase)).2 ht⟩
    · intro h phase
      exact (promised_compressPhase (hdata phase)).mpr
        ⟨fun ht => h.1 ht phase, fun ht => h.2 ht phase⟩
  have horiginal : 0 < total fun phase => byteLength (data phase) :=
    Nat.add_pos_right _ (byteLength_pos (hdata .execution))
  have hratio : (0 ≤ (contextOf s d config w input data).metadata.compressionRatio ∧
      (contextOf s d config w input data).metadata.compressionRatio ≤ 1) ↔
      total (fun phase => (compressPhases s d config w data phase).compressedSize) ≤
        total (fun phase => byteLength (data phase)) := compressionRatio_mem_iff horiginal
  have hsizes : (∀ phase, Promised config.type (compressPhases s d config w data phase)) →
      total (fun phase => (compressPhases s d config w data phase).compressedSize) =
        total (fun phase => phaseSize s d config (w.phase phase) (data phase) phase) := by
    intro h
    exact congrArg total (funext fun phase => (compressedSize_of_promised (h phase)).1)
  rw [validate_eq_ok, validateMetadata_eq_ok, hratio]
  constructor
  · rintro ⟨-, hphases, hsize, -, -, htime⟩
    obtain ⟨hembeddings, hsummaries⟩ := hpromised.mp hphases
    exact ⟨hembeddings, hsummaries, hsizes hphases ▸ hsize, htime⟩
  · rintro ⟨hembeddings, hsummaries, hsize, htime⟩
    have hphases := hpromised.mpr ⟨hembeddings, hsummaries⟩
    refine ⟨trim_generateContextId _ _, hphases, (hsizes hphases).symm ▸ hsize,
      horiginal, ?_, htime⟩
    show 0 < total fun phase => (compressPhases s d config w data phase).compressedSize
    rw [hsizes hphases]
    exact Nat.add_pos_right _ (compressedSize_of_promised (hphases .execution)).2

theorem compressContext_eq_ok {c : CompressedContext} :
    compressContext s d config w input = .ok c ↔ ∃ data, extractPhaseData d input = .ok data ∧
      (contextOf s d config w input data).validate = .ok () ∧
      contextOf s d config w input data = c := by
  unfold compressContext
  cases extractPhaseData d input with
  | error message => simp [bind, Except.bind]
  | ok data =>
    refine seq_eq_ok.trans ?_
    simp

end Contexts

def shortRequest : CompressionInput where
  task := ⟨ofString "CODE_REVIEW", ofString "medium", ofString "hi",
    ofString "2024-01-01T00:00:00.000Z", none, none, none⟩
  result := ⟨ofString "ok", none⟩
  routingInfo := ⟨.claude, 1, ofString "default", []⟩
  executionMetrics := ⟨5, none, 0, none⟩

def plainDetails : Details where
  number _ := ofString "5"
  toFixed _ := ofString "1.000"
  scoreSentence _ _ := 0
  minimalMetadata _ _ := []
  stringify _ := []

/-- A call in which one adapter is as available as this for embeddings, and Claude answers this to
every prompt, if anything. -/
def callWith (adapter : Availability) (answer : Option Text) : CallWorld where
  taskId := ofString "7"
  phase _ := {
    cache := .empty
    adapter := fun _ => adapter
    component := fun _ => 0
    registered := fun a => decide (a = .claude) && answer.isSome
    execute := fun _ _ => answer }
  processingTime := 0
  suffix := ofString "x"

def claudeOnly : EmbeddingServiceConfig := ⟨.claude, [], {}, false⟩

/-- With a short answer from Claude the request succeeds. -/
example : (compressContext claudeOnly plainDetails { type := .summary }
    (callWith .absent (some (ofString "reviewed"))) shortRequest).isOk = true := by decide +kernel

end Bridge.Compression
