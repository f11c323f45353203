import Bridge.Contexts.Repository
import Bridge.Lib.Prog
import Mathlib.Data.List.Induction

/-!
# Decompressing a context

`DecompressContextUseCase` marks the context as accessed, and saves it, before it asks the service
whether there is anything to decompress. A context of embeddings alone cannot be decompressed, so
each attempt fails, counts as a use, and puts off the day on which `deleteUnusedContexts` removes
the context: `failed_decompression`.
-/

namespace Bridge.Contexts

open Lib Repository Prog List

namespace CompressedContext

/-- `accessedAt` is the first `new Date()`, `timestamp` the second. -/
def markAccessed (c : CompressedContext) (accessedAt timestamp : Int) : CompressedContext :=
  { c with
    accessedAt := some (some accessedAt)
    useCount := c.useCount + 1
    events := c.events ++ [{
      aggregateId := c.id
      eventData := .accessed c.taskId accessedAt (c.useCount + 1)
      eventVersion := c.events.length + 1
      timestamp := timestamp }] }

def canBeDecompressed (c : CompressedContext) : Bool :=
  c.compressionType = .summary || c.compressionType = .hybrid

end CompressedContext

namespace Decompression

structure Decompressed where
  reconstructedPrompt : String
  routingInsights : String
  executionSummary : String
  confidence : Rat
  deriving DecidableEq

/-- `text || fallback` -/
def orElse (text : Option String) (fallback : String) : String :=
  (text.filter (· ≠ "")).getD fallback

def confidenceOf (c : CompressedContext) : Rat :=
  let confidence := if c.compressionType = .hybrid then 17 / 20 else 7 / 10
  match c.qualityScore.filter (· ≠ 0) with
  | some qualityScore => confidence * qualityScore
  | none => confidence

def cannotDecompress : String := "This compressed context cannot be meaningfully decompressed"

def decompressContext (c : CompressedContext) : Except String Decompressed :=
  if !c.canBeDecompressed then .error cannotDecompress
  else .ok {
    reconstructedPrompt :=
      orElse c.summaries.analysis "Task analysis not available in summary form"
    routingInsights :=
      orElse c.summaries.routing ("Routed to " ++ orElse c.selectedAdapter "unknown adapter")
    executionSummary := orElse c.summaries.execution "Execution completed successfully"
    confidence := confidenceOf c }

/-! ## The use case -/

structure DecompressContextResult where
  contextId : String
  taskId : String
  decompressed : Decompressed
  compressionType : CompressionType
  originalSize : Rat
  compressedSize : Rat
  compressionRatio : Num
  createdAt : Int

inductive Notice
  | decompressed (contextId taskId : String) (confidence : Rat)
  | decompressionFailed (contextId error : String)
  deriving DecidableEq

structure World where
  repository : Repository
  emitted : List Notice

/-- What the event bus rejects the two events with, if it does, and what the clock says in
`markAccessed`. -/
structure Circumstances where
  decompressed : Option String := none
  decompressionFailed : Option String := none
  accessedAt : Int
  timestamp : Int

/-- `await this.eventBus.emit(..)` -/
def emit (rejects : Option String) (notice : Notice) : Prog World String Unit :=
  match rejects with
  | some e => throw e
  | none => modify fun w => { w with emitted := w.emitted ++ [notice] }

variable (env : Circumstances) (contextId : String)

/-- The `try` block. -/
def decompress : Prog World String DecompressContextResult := do
  let w ← get
  match w.repository.findById contextId with
  | none => throw ("Compressed context not found: " ++ contextId)
  | some stored =>
    let c := stored.markAccessed env.accessedAt env.timestamp
    modify fun w => { w with repository := w.repository.save c }
    let decompressed ← Prog.ofExcept (decompressContext c)
    emit env.decompressed (.decompressed contextId c.taskId decompressed.confidence)
    return {
      contextId, taskId := c.taskId, decompressed, compressionType := c.compressionType
      originalSize := c.originalSize, compressedSize := c.compressedSize
      compressionRatio := c.compressionRatio, createdAt := c.createdAt }

def execute : Prog World String DecompressContextResult :=
  tryCatch (decompress env contextId) fun error => do
    emit env.decompressionFailed (.decompressionFailed contextId error)
    throw error

variable {env contextId} {w : World} {c : CompressedContext}

def SameRepository (w w' : World) : Prop := w'.repository = w.repository

instance : Std.Refl SameRepository := ⟨fun _ => rfl⟩

instance : IsTrans World SameRepository := ⟨fun _ _ _ h h' => h'.trans h⟩

theorem keeps_emit (rejects : Option String) (notice : Notice) :
    Prog.Keeps SameRepository (emit rejects notice) := by
  cases rejects with
  | some e => exact keeps_throw
  | none => exact fun _ => rfl

theorem keeps_ofExcept {α : Type} (x : Except String α) :
    Prog.Keeps SameRepository (Prog.ofExcept x : Prog World String α) := by
  cases x with
  | ok a => exact keeps_pure
  | error e => exact keeps_throw

theorem repository_decompress (h : w.repository.findById contextId = some c) :
    ((decompress env contextId).on w).2.repository =
      w.repository.save (c.markAccessed env.accessedAt env.timestamp) := by
  rw [decompress, on_get_bind]
  simp only [h]
  rw [on_bind_ok on_modify]
  -- nothing after the save writes to the repository
  refine Prog.Keeps.bind (R := SameRepository) (keeps_ofExcept _) (fun _ => ?_) _
  refine Prog.Keeps.bind (keeps_emit _ _) fun _ => ?_
  exact keeps_pure

theorem repository_execute (env : Circumstances) (h : w.repository.findById contextId = some c) :
    ((execute env contextId).on w).2.repository =
      w.repository.save (c.markAccessed env.accessedAt env.timestamp) := by
  refine end_tryCatch (P := fun w' : World => w'.repository = w.repository.save
    (c.markAccessed env.accessedAt env.timestamp)) (repository_decompress h) fun e w' hw' => ?_
  have hkeeps : SameRepository w' (Prog.on (do
      emit env.decompressionFailed (.decompressionFailed contextId e)
      throw e : Prog World String DecompressContextResult) w').2 :=
    Prog.Keeps.bind (keeps_emit _ _) (fun _ => keeps_throw) w'
  exact hkeeps.trans hw'

theorem execute_error (env : Circumstances) (h : w.repository.findById contextId = some c)
    (hcannot : c.canBeDecompressed = false) :
    ((execute env contextId).on w).1 = .error (env.decompressionFailed.getD cannotDecompress) := by
  have hservice : decompressContext (c.markAccessed env.accessedAt env.timestamp) =
      .error cannotDecompress := if_pos (by rw [Bool.not_eq_true']; exact hcannot)
  have hblock : (decompress env contextId).on w = (.error cannotDecompress,
      { w with repository := w.repository.save (c.markAccessed env.accessedAt
        env.timestamp) }) := by
    rw [decompress, on_get_bind]
    simp only [h]
    rw [on_bind_ok on_modify, hservice]
    exact on_bind_error rfl
  rw [execute, on_tryCatch_error hblock]
  cases env.decompressionFailed with
  | some e => rfl
  | none => rfl

end Decompression

/-! ## What a clean-up removes -/

section CleanUp

variable {s : Repository} {id : String} {c : CompressedContext}

theorem get_deleteById (s : Repository) (id id' : String) :
    (s.deleteById id').2.contexts.get id = if id = id' then none else s.contexts.get id := by
  unfold Repository.deleteById
  cases hget : s.contexts.get id' with
  | none =>
    by_cases heq : id = id'
    · rw [if_pos heq, heq, hget]
    · rw [if_neg heq]
  | some c =>
    by_cases heq : id = id'
    · rw [if_pos heq, heq, OrderedMap.get_delete_self]
    · rw [if_neg heq, OrderedMap.get_delete_of_ne heq]

theorem get_deleteEach (contexts : List CompressedContext) (s : Repository) (id : String) :
    (deleteEach contexts s).2.contexts.get id =
      if id ∈ contexts.map CompressedContext.id then none else s.contexts.get id := by
  induction contexts generalizing s with
  | nil => rfl
  | cons context contexts ih =>
    rw [deleteEach, ih, get_deleteById]
    by_cases heq : id = context.id
    · simp [heq]
    · simp [heq]

theorem findById_deleteUnusedContexts (hkeyed : s.contexts.KeyedBy CompressedContext.id)
    (h : s.findById id = some c) (cutoffDate : Moment) :
    (s.deleteUnusedContexts cutoffDate).2.findById id =
      if Moment.before (lastAccessed c) cutoffDate then none else some c := by
  have hmem : id ∈ (s.contexts.values.filter fun c =>
      Moment.before (lastAccessed c) cutoffDate).map CompressedContext.id ↔
      Moment.before (lastAccessed c) cutoffDate = true := by
    obtain ⟨hc, hid⟩ := hkeyed.get_eq_some_iff.mp h
    rw [mem_map]
    constructor
    · intro hx
      obtain ⟨c', hc', hid'⟩ := hx
      obtain ⟨hvalues, hbefore⟩ := mem_filter.mp hc'
      have heq : s.contexts.get id = some c' := hkeyed.get_eq_some_iff.mpr ⟨hvalues, hid'⟩
      obtain rfl := Option.some.inj (h.symm.trans heq)
      exact hbefore
    · intro hbefore
      exact ⟨c, mem_filter.mpr ⟨hc, hbefore⟩, hid⟩
  rw [findById, deleteUnusedContexts, get_deleteEach]
  simp only [hmem]
  rw [show s.contexts.get id = some c from h]

theorem keyed_deleteById (h : s.contexts.KeyedBy CompressedContext.id) :
    (s.deleteById id).2.contexts.KeyedBy CompressedContext.id := by
  unfold Repository.deleteById
  cases s.contexts.get id with
  | none => exact h
  | some c => exact h.delete

theorem keyed_deleteEach (contexts : List CompressedContext) {s : Repository}
    (h : s.contexts.KeyedBy CompressedContext.id) :
    (deleteEach contexts s).2.contexts.KeyedBy CompressedContext.id := by
  induction contexts generalizing s with
  | nil => exact h
  | cons context contexts ih => exact ih (keyed_deleteById h)

theorem keyed_run (operations : List Operation) :
    (run operations).contexts.KeyedBy CompressedContext.id := by
  have hempty : Repository.empty.contexts.KeyedBy CompressedContext.id := by
    intro e he
    exact absurd he not_mem_nil
  unfold run
  induction operations using reverseRecOn with
  | nil => exact hempty
  | append_singleton operations op ih =>
    rw [foldl_append]
    cases op with
    | save context => exact ih.set
    | delete | deleteById => exact keyed_deleteById ih
    | deleteByTaskId | deleteOlderThan | deleteUnusedContexts => exact keyed_deleteEach _ ih
    | clear => exact hempty

end CleanUp

namespace Decompression

/-- **A failed attempt is a use**, and a later clean-up goes by its date. -/
theorem failed_decompression (operations : List Operation) (emitted : List Notice)
    (env : Circumstances) (contextId : String) (c : CompressedContext)
    (hstored : (run operations).findById contextId = some c)
      (hcannot : c.canBeDecompressed = false) :
    ∃ w', (execute env contextId).on ⟨run operations, emitted⟩ =
        (.error (env.decompressionFailed.getD cannotDecompress), w') ∧
      w'.repository.findById contextId = some (c.markAccessed env.accessedAt env.timestamp) ∧
      w'.repository.findById contextId ≠ some c ∧
      ∀ cutoffDate,
        (((run operations).deleteUnusedContexts cutoffDate).2.findById contextId = none ↔
          Moment.before (lastAccessed c) cutoffDate = true) ∧
        ((w'.repository.deleteUnusedContexts cutoffDate).2.findById contextId = none ↔
          Moment.before (some env.accessedAt) cutoffDate = true) := by
  have hkeyed := keyed_run operations
  have hid : c.id = contextId := (hkeyed.get_eq_some_iff.mp hstored).2
  have hrepository := repository_execute env (w := ⟨run operations, emitted⟩) hstored
  have herror := execute_error env (w := ⟨run operations, emitted⟩) hstored hcannot
  rcases hrun : (execute env contextId).on ⟨run operations, emitted⟩ with ⟨r, w'⟩
  rw [hrun] at hrepository herror
  obtain rfl := herror
  have hsaved := hrepository
  have hmarked : w'.repository.findById contextId =
      some (c.markAccessed env.accessedAt env.timestamp) := by
    rw [hsaved, ← hid]
    exact OrderedMap.get_set_self
  have hkeyed' : w'.repository.contexts.KeyedBy CompressedContext.id := by
    rw [hsaved]
    exact hkeyed.set
  refine ⟨w', rfl, hmarked, ?_, fun cutoffDate => ⟨?_, ?_⟩⟩
  · rw [hmarked]
    intro hsame
    have hcount : c.useCount + 1 = c.useCount :=
      congrArg CompressedContext.useCount (Option.some.inj hsame)
    omega
  · rw [findById_deleteUnusedContexts hkeyed hstored]
    cases Moment.before (lastAccessed c) cutoffDate <;> simp
  · rw [findById_deleteUnusedContexts hkeyed' hmarked]
    have hlast : lastAccessed (c.markAccessed env.accessedAt env.timestamp) = some env.accessedAt :=
  rfl
    rw [hlast]
    cases Moment.before (some env.accessedAt) cutoffDate <;> simp

def embeddedOnly : CompressedContext where
  id := "a"
  taskId := "t"
  compressionType := .embeddings
  phases := ⟨some [], some [], some []⟩
  compressionRatio := some 0
  createdAt := 0
  accessedAt := none
  tags := []

def attempt : Except String DecompressContextResult × World :=
  (execute { accessedAt := 20, timestamp := 20 } "a").on ⟨run [.save embeddedOnly], []⟩

theorem failed_decompression_embeddedOnly : ∃ w', attempt = (.error cannotDecompress, w') ∧
      w'.repository.findById "a" = some (embeddedOnly.markAccessed 20 20) := by
  obtain ⟨w', hrun, hmarked, -⟩ := failed_decompression [.save embeddedOnly] []
    { accessedAt := 20, timestamp := 20 } "a" embeddedOnly rfl rfl
  exact ⟨w', hrun, hmarked⟩

theorem attempt_keeps_context : attempt.1.isOk = false ∧
    (attempt.2.repository.findById "a").map (fun c => (c.useCount, c.events.length)) = some (1, 1) ∧
    (((run [.save embeddedOnly]).deleteUnusedContexts (some 10)).2.findById "a").isSome = false ∧
    ((attempt.2.repository.deleteUnusedContexts (some 10)).2.findById "a").isSome = true := by
  decide +kernel

end Decompression

end Bridge.Contexts
