import Mathlib.Data.Rat.Floor
import Bridge.Compression.Embedding

/-!
# The compression service

A task and its result are written out as three texts, and each of them is compressed: into an
embedding, a summary, or both. A phase that fails is truncated instead. What comes of it is checked
by the constructor of `CompressedContext`: a phase needs what the compression type promises, and the
whole must not be larger than it was.
-/

namespace Bridge.Compression

open Lib Utf16
open Domain (AdapterType)

inductive CompressionType
  | embeddings
  | summary
  | hybrid
  deriving DecidableEq

structure CompressionConfig where
  type : CompressionType
  maxSummaryLength : Option Rat := none
  preserveCodeBlocks : Bool := false
  includeMetrics : Bool := false
  deriving DecidableEq

/-- What is read of a task. `context` and `constraints` are what `JSON.stringify` makes of them; it
may throw. -/
structure TaskData where
  type : Text
  priority : Text
  prompt : Text
  createdAt : Text
  tags : Option (List Text)
  context : Option (Except String Text)
  constraints : Option (Except String Text)

structure Alternative where
  adapter : AdapterType
  score : Rat
  reason : Text

structure RoutingInfo where
  selectedAdapter : AdapterType
  score : Rat
  reasoning : Text
  alternatives : List Alternative

structure ResultData where
  output : Text
  error : Option Text

structure ExecutionMetrics where
  duration : Rat
  tokensUsed : Option Rat
  retryCount : Rat
  validationScore : Option Rat

structure CompressionInput where
  task : TaskData
  result : ResultData
  routingInfo : RoutingInfo
  executionMetrics : ExecutionMetrics

inductive Phase
  | analysis
  | routing
  | execution
  deriving DecidableEq

def Phase.name : Phase → String
  | .analysis => "analysis"
  | .routing => "routing"
  | .execution => "execution"

/-- What the results here do not depend on: how numbers print, how a sentence scores, and the text
of the metadata that is kept beside an embedding. -/
structure Details where
  number : Rat → Text
  toFixed : Rat → Text
  scoreSentence : CompressionConfig → Text → Rat
  minimalMetadata : Text → Phase → Text
  stringify : EmbeddingConfig → Text

section Extract

variable (d : Details)

def joinLines (lines : List Text) : Text := [0x0A].intercalate lines

def line (label : String) (value : Text) : Text := ofString label ++ value

def natText (n : Nat) : Text := ofString (toString n)

/-- `result.isSuccess`: there is no error, or an empty one. -/
def ResultData.isSuccess (r : ResultData) : Bool := (r.error.filter (· ≠ [])).isNone

def optionalLine (label : String) : Option (Except String Text) → Except String (List Text)
  | none => .ok []
  | some (.ok value) => .ok [line label value]
  | some (.error message) => .error message

def extractAnalysisData (task : TaskData) : Except String Text := do
  let context ← optionalLine "Context: " task.context
  let constraints ← optionalLine "Constraints: " task.constraints
  let tags := (task.tags.filter (· ≠ [])).toList.map fun tags =>
    line "Tags: " ((ofString ", ").intercalate tags)
  .ok (joinLines ([line "Task Type: " task.type, line "Priority: " task.priority,
    line "Prompt Length: " (natText task.prompt.length ++ ofString " characters"),
    line "Created: " task.createdAt] ++ tags ++ context ++ constraints ++
    [line "\nOriginal Prompt:\n" task.prompt]))

def extractRoutingData (routingInfo : RoutingInfo) : Text :=
  joinLines ([line "Selected Adapter: " (ofString routingInfo.selectedAdapter.text),
    line "Routing Score: " (d.toFixed routingInfo.score), line "Reasoning: "
      routingInfo.reasoning] ++
    if routingInfo.alternatives = [] then []
    else ofString "\nAlternative Options:" :: routingInfo.alternatives.map fun a =>
      line "- " (ofString a.adapter.text ++ ofString ": " ++ d.toFixed a.score ++ ofString " (" ++
        a.reason ++ ofString ")"))

def truthy (n : Option Rat) : Option Rat := n.filter (· ≠ 0)

def extractExecutionData (result : ResultData) (metrics : ExecutionMetrics) : Text :=
  joinLines ([line "Status: " (ofString (if result.isSuccess then "Success" else "Failed")),
    line "Duration: " (d.number metrics.duration ++ ofString "ms"),
    line "Retry Count: " (d.number metrics.retryCount),
    line "Result Length: " (natText result.output.length ++ ofString " characters")] ++
    (truthy metrics.tokensUsed).toList.map (fun n => line "Tokens Used: " (d.number n)) ++
    (truthy metrics.validationScore).toList.map (fun x => line "Validation Score: "
      (d.toFixed x)) ++
    [match result.error.filter (· ≠ []) with
      | some error => line "Error: " error
      | none => line "\nResult Output:\n" result.output])

def extractPhaseData (input : CompressionInput) : Except String (Phase → Text) := do
  let analysis ← extractAnalysisData input.task
  .ok fun
    | .analysis => analysis
    | .routing => extractRoutingData d input.routingInfo
    | .execution => extractExecutionData d input.result input.executionMetrics

end Extract

/-! ## Summaries -/

section Summary

variable (d : Details) (config : CompressionConfig)

/-- What the adapters do while a phase is compressed: which are registered, and what each makes of a
prompt; `none` where it rejects. -/
structure PhaseWorld extends EmbeddingWorld where
  registered : AdapterType → Bool
  execute : AdapterType → Text → Option Text

/-- `config.maxSummaryLength || length` -/
def maxLengthOr (length : Rat) : Rat := (truthy config.maxSummaryLength).getD length

/-- `data.substring(0, length)` -/
def substring (data : Text) (length : Rat) : Text := data.take ⌊length⌋.toNat

def isStop (u : UInt16) : Bool := [0x2E, 0x21, 0x3F].contains u

/-- The pieces between the stops; those of a run of stops are too short to be kept. -/
def sentences (data : Text) : List Text :=
  (data.splitOnP isStop).filter fun s => decide (10 < (trim s).length)

/-- The sentences in descending order of their scores, as many as fit. -/
def extractiveSummary (data : Text) (maxLength : Rat) : Text :=
  if sentences data = [] then substring data maxLength
  else
    let scored := (sentences data).map fun s => (trim s, d.scoreSentence config s)
    let sorted := scored.mergeSort fun a b => decide (b.2 ≤ a.2)
    let summary := sorted.foldl (fun summary item =>
      if (summary.length + item.1.length + 2 : Rat) ≤ maxLength then
        summary ++ (if summary = [] then [] else ofString ". ") ++ item.1
      else summary) []
    if summary = [] then substring data maxLength else summary

def getBestSummaryAdapter (registered : AdapterType → Bool) : Option AdapterType :=
  [.claude, .openai, .cohere, .gemini].find? registered

def buildSummaryPrompt (data : Text) (maxLength : Rat) : Text :=
  ofString "Please create a concise summary of the following content in " ++ d.number maxLength ++
    ofString " characters or less. " ++
    (if config.preserveCodeBlocks then
      ofString "Preserve any important code snippets or technical details. " else []) ++
    (if config.includeMetrics then ofString "Include key metrics and performance data. " else []) ++
    ofString "Focus on the most important information:\n\n" ++ data

/-- The answer of the adapter, if there is one that is not empty and not too long. -/
def adapterSummary (w : PhaseWorld) (data : Text) : Option Text :=
  let maxLength := maxLengthOr config 200
  (((getBestSummaryAdapter w.registered).bind fun adapter =>
    w.execute adapter (buildSummaryPrompt d config data maxLength)).filter fun output =>
      decide (output ≠ [] ∧ (output.length : Rat) ≤ maxLength * (6 / 5))).map trim

def generateSummary (w : PhaseWorld) (data : Text) : Text :=
  (adapterSummary d config w data).getD (extractiveSummary d config data (maxLengthOr config 200))

end Summary

structure CompressedPhaseData where
  embedding : Option (List Rat)
  summary : Option Text
  originalSize : Nat
  compressedSize : Nat

section Compress

variable (s : EmbeddingServiceConfig) (d : Details) (config : CompressionConfig)

/-- `Buffer.byteLength(text, 'utf8')` -/
def byteLength (text : Text) : Nat := (utf8 text).length

/-- The `try` block of `compressPhase`. -/
def tryCompressPhase (w : PhaseWorld) (data : Text) (phase : Phase) :
    Except String CompressedPhaseData := do
  let embedding ←
    if config.type = .embeddings ∨ config.type = .hybrid then
      (generateEmbedding s d.stringify w.toEmbeddingWorld data none).1.map some
    else .ok none
  let summary :=
    if config.type = .summary ∨ config.type = .hybrid then some (generateSummary d config w data)
    else none
  let minimal := if config.type = .embeddings then byteLength (d.minimalMetadata data phase) else 0
  .ok {
    embedding := embedding.map EmbeddingResult.embedding
    summary := summary
    originalSize := byteLength data
    compressedSize := ((embedding.map EmbeddingResult.dimensions).getD 0) * 4 +
      ((summary.map byteLength).getD 0) + minimal }

def fallbackSummary (data : Text) : Text :=
  let truncated := substring data (maxLengthOr config 500)
  truncated ++ if truncated.length < data.length then ofString "..." else []

def compressPhase (w : PhaseWorld) (data : Text) (phase : Phase) : CompressedPhaseData :=
  match tryCompressPhase s d config w data phase with
  | .ok compressed => compressed
  | .error _ =>
    { embedding := none
      summary := some (fallbackSummary config data)
      originalSize := byteLength data
      compressedSize := byteLength (fallbackSummary config data) }

/-! ## Contexts -/

structure CompressionMetadata where
  originalSize : Nat
  compressedSize : Nat
  compressionRatio : Rat
  encodingAdapter : AdapterType
  qualityScore : Rat
  processingTime : Int

structure CompressedContext where
  id : Text
  taskId : Text
  compressionType : CompressionType
  phases : Phase → CompressedPhaseData
  metadata : CompressionMetadata

def total (size : Phase → Nat) : Nat := size .analysis + size .routing + size .execution

def calculateCompressionMetadata (originalPhases : Phase → Text)
    (compressedPhases : Phase → CompressedPhaseData) (encodingAdapter : AdapterType)
    (processingTime : Int) : CompressionMetadata :=
  let originalSize := total fun phase => byteLength (originalPhases phase)
  let compressedSize := total fun phase => (compressedPhases phase).compressedSize
  let compressionRatio := (compressedSize : Rat) / originalSize
  { originalSize
    compressedSize
    compressionRatio
    encodingAdapter
    qualityScore := if compressionRatio < 1 / 10 then 9 / 10
      else if 1 / 2 < compressionRatio then 3 / 5 else 4 / 5
    processingTime }

def hasSummary (phase : CompressedPhaseData) : Bool := (phase.summary.filter (· ≠ [])).isSome

def validatePhase (type : CompressionType) (name : String) (phase : CompressedPhaseData) :
    Except String Unit :=
  if type = .embeddings ∧ phase.embedding = none then
    .error ("Phase '" ++ name ++ "' must have embeddings for EMBEDDINGS compression")
  else if type = .summary ∧ hasSummary phase = false then
    .error ("Phase '" ++ name ++ "' must have summary for SUMMARY compression")
  else if type = .hybrid ∧ (phase.embedding = none ∨ hasSummary phase = false) then
    .error ("Phase '" ++ name ++ "' must have both embeddings and summary for HYBRID compression")
  else .ok ()

def validateMetadata (metadata : CompressionMetadata) : Except String Unit :=
  if metadata.compressionRatio < 0 ∨ 1 < metadata.compressionRatio then
    .error "Compression ratio must be between 0 and 1"
  else if metadata.originalSize ≤ 0 then .error "Original size must be positive"
  else if metadata.compressedSize ≤ 0 then .error "Compressed size must be positive"
  else if metadata.processingTime < 0 then .error "Processing time cannot be negative"
  else .ok ()

def validateId (id : Text) : Except String Unit :=
  if trim id = [] then .error "CompressedContext ID cannot be empty" else .ok ()

def CompressedContext.validate (c : CompressedContext) : Except String Unit := do
  validateId c.id
  validatePhase c.compressionType Phase.analysis.name (c.phases .analysis)
  validatePhase c.compressionType Phase.routing.name (c.phases .routing)
  validatePhase c.compressionType Phase.execution.name (c.phases .execution)
  validateMetadata c.metadata

/-- What a call meets: the id of its task, the adapters in each phase, the time it takes by the
clock, and what its own id ends with. -/
structure CallWorld where
  taskId : Text
  phase : Phase → PhaseWorld
  processingTime : Int
  suffix : Text

def generateContextId (taskId suffix : Text) : Text :=
  ofString "ctx_" ++ taskId ++ ofString "_" ++ suffix

def compressPhases (w : CallWorld) (phaseData : Phase → Text) (phase : Phase) :
    CompressedPhaseData :=
  compressPhase s d config (w.phase phase) (phaseData phase) phase

def contextOf (w : CallWorld) (input : CompressionInput) (phaseData : Phase → Text) :
    CompressedContext where
  id := generateContextId w.taskId w.suffix
  taskId := w.taskId
  compressionType := config.type
  phases := compressPhases s d config w phaseData
  metadata := calculateCompressionMetadata phaseData (compressPhases s d config w phaseData)
    input.routingInfo.selectedAdapter w.processingTime

def compressContext (w : CallWorld) (input : CompressionInput) : Except String CompressedContext :=
  do
  let phaseData ← extractPhaseData d input
  (contextOf s d config w input phaseData).validate
  .ok (contextOf s d config w input phaseData)

end Compress

end Bridge.Compression
