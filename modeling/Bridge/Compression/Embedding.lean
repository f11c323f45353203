import Mathlib.Data.Rat.Defs
import Bridge.Lib.OrderedMap
import Bridge.Lib.Utf16
import Bridge.Domain.Task

/-!
# The embedding service

A text is embedded by the first of the adapters that is there, is available, and can do it. Nothing
else is asked of the adapter: what the vector is made of is the service's own. With caching on, a
result is kept under the length of its text, its first 100 characters and the configuration.
-/

namespace Bridge.Compression

open Lib Utf16 List
open Domain (AdapterType)

abbrev Text := Utf16.Units

structure EmbeddingConfig where
  model : Option Text := none
  dimensions : Option Rat := none
  maxTokens : Option Rat := none
  batchSize : Option Rat := none
  deriving DecidableEq

structure EmbeddingResult where
  embedding : List Rat
  model : Text
  dimensions : Nat
  length_embedding : embedding.length = dimensions
  dimensions_pos : 0 < dimensions

structure EmbeddingServiceConfig where
  preferredAdapter : AdapterType
  fallbackAdapters : List AdapterType
  defaultConfig : EmbeddingConfig
  cache : Bool

/-- What the registry and `isAvailable` have to say of an adapter. -/
inductive Availability
  | absent
  | unavailable
  | rejects
  | available
  deriving DecidableEq

abbrev EmbeddingCache := OrderedMap Text EmbeddingResult

/-- What one call meets: the cache, each adapter when its turn comes, and the components of the
vector, which are random or taken from the text. -/
structure EmbeddingWorld where
  cache : EmbeddingCache
  adapter : Nat → Availability
  component : Nat → Rat

section Embedding

variable (s : EmbeddingServiceConfig) (stringify : EmbeddingConfig → Text)

def getCacheKey (text : Text) (config : Option EmbeddingConfig) : Text :=
  ofString (toString text.length) ++ ofString ":" ++ text.take 100 ++ ofString ":" ++
    (config.map stringify).getD []

def vector (component : Nat → Rat) (model : Text) (n : Nat) (hn : 0 < n) : EmbeddingResult where
  embedding := (range n).map component
  model := model
  dimensions := n
  length_embedding := by rw [length_map, length_range]
  dimensions_pos := hn

/-- `config.model || model` -/
def modelOr (config : EmbeddingConfig) (model : String) : Text :=
  (config.model.filter (· ≠ [])).getD (ofString model)

/-- `none`, where the adapter has no embeddings. -/
def generateWithAdapter (adapter : AdapterType) (config : EmbeddingConfig) (component : Nat → Rat) :
    Option EmbeddingResult :=
  match adapter with
  | .openai =>
    some (vector component (modelOr config "text-embedding-ada-002") 1536 (Nat.succ_pos _))
  | .cohere => some (vector component (modelOr config "embed-english-v3.0") 1024 (Nat.succ_pos _))
  | .huggingface =>
    some (vector component (modelOr config "sentence-transformers/all-MiniLM-L6-v2") 384
      (Nat.succ_pos _))
  | .claude | .gemini =>
    some (vector component (ofString adapter.text ++ ofString "-text-features") 128
      (Nat.succ_pos _))
  | .localModel => none

def adaptersToTry : List AdapterType := s.preferredAdapter :: s.fallbackAdapters

/-- `{ ...defaultConfig, ...config }`, as far as it is used. -/
def effectiveConfig (config : Option EmbeddingConfig) : EmbeddingConfig :=
  { s.defaultConfig with model := (config.bind EmbeddingConfig.model).or s.defaultConfig.model }

/-- The loop: an adapter that is not there, does not answer or throws is passed over. -/
def tryAdapters (w : EmbeddingWorld) (config : EmbeddingConfig) :
    List (AdapterType × Nat) → Option EmbeddingResult
  | [] => none
  | (adapter, i) :: rest =>
    match w.adapter i with
    | .available =>
      match generateWithAdapter adapter config w.component with
      | some result => some result
      | none => tryAdapters w config rest
    | .absent | .unavailable | .rejects => tryAdapters w config rest

def generateEmbedding (w : EmbeddingWorld) (text : Text) (config : Option EmbeddingConfig) :
    Except String EmbeddingResult × EmbeddingCache :=
  let cacheKey := getCacheKey stringify text config
  match if s.cache then w.cache.get cacheKey else none with
  | some cached => (.ok cached, w.cache)
  | none =>
    match tryAdapters w (effectiveConfig s config) (adaptersToTry s).zipIdx with
    | some result => (.ok result, if s.cache then w.cache.set cacheKey result else w.cache)
    | none => (.error "Failed to generate embedding with all available adapters", w.cache)

variable {config : EmbeddingConfig}

theorem generateWithAdapter_eq_none {adapter : AdapterType} {component : Nat → Rat} :
    generateWithAdapter adapter config component = none ↔ adapter = .localModel := by
  cases adapter <;> simp [generateWithAdapter]

variable {w : EmbeddingWorld} {adapters : List (AdapterType × Nat)}

theorem tryAdapters_isSome : (tryAdapters w config adapters).isSome ↔
      ∃ a ∈ adapters, w.adapter a.2 = .available ∧ a.1 ≠ .localModel := by
  induction adapters with
  | nil => simp [tryAdapters]
  | cons a rest ih =>
    obtain ⟨adapter, i⟩ := a
    rw [exists_mem_cons_iff, ← ih, tryAdapters]
    cases hi : w.adapter i with
    | available =>
      cases hresult : generateWithAdapter adapter config w.component with
      | none => simp [generateWithAdapter_eq_none.mp hresult]
      | some result =>
        have hne : adapter ≠ .localModel := by
          intro h
          simp [generateWithAdapter_eq_none.mpr h] at hresult
        simp [hne]
    | absent | unavailable | rejects => simp

def FindsEmbedding (w : EmbeddingWorld) (text : Text) : Prop :=
  (s.cache = true ∧ (w.cache.get (getCacheKey stringify text none)).isSome) ∨
    ∃ i adapter, (adaptersToTry s)[i]? = some adapter ∧ w.adapter i = .available ∧
      adapter ≠ .localModel

theorem generateEmbedding_eq_ok {text : Text} :
    (∃ result, (generateEmbedding s stringify w text none).1 = .ok result) ↔
      FindsEmbedding s stringify w text := by
  have htry : (tryAdapters w (effectiveConfig s none) (adaptersToTry s).zipIdx).isSome ↔
      ∃ i adapter, (adaptersToTry s)[i]? = some adapter ∧ w.adapter i = .available ∧
        adapter ≠ .localModel := by
    rw [tryAdapters_isSome]
    constructor
    · rintro ⟨⟨adapter, i⟩, hmem, havailable, hne⟩
      exact ⟨i, adapter, mem_zipIdx_iff_getElem?.mp hmem, havailable, hne⟩
    · rintro ⟨i, adapter, hmem, havailable, hne⟩
      exact ⟨(adapter, i), mem_zipIdx_iff_getElem?.mpr hmem, havailable, hne⟩
  unfold FindsEmbedding
  rw [← htry]
  simp only [generateEmbedding]
  cases hcache : s.cache with
  | false => cases tryAdapters w (effectiveConfig s none) (adaptersToTry s).zipIdx <;> simp
  | true =>
    cases w.cache.get (getCacheKey stringify text none) with
    | some cached => simp
    | none => cases tryAdapters w (effectiveConfig s none) (adaptersToTry s).zipIdx <;> simp

/-- The dimensions of the vectors of an adapter. -/
def dimensionsOf : AdapterType → Nat
  | .openai => 1536
  | .cohere => 1024
  | .huggingface => 384
  | .claude | .gemini => 128
  | .localModel => 0

/-- The dimensions of the vector that is found for a text: of the one in the cache, or of the first
adapter that is available and has embeddings. -/
def foundDimensions (w : EmbeddingWorld) (text : Text) : Nat :=
  match if s.cache then w.cache.get (getCacheKey stringify text none) else none with
  | some cached => cached.dimensions
  | none => (((adaptersToTry s).zipIdx.find? fun a =>
      decide (w.adapter a.2 = .available ∧ a.1 ≠ .localModel)).map fun a => dimensionsOf a.1).getD 0

variable {result : EmbeddingResult}

theorem dimensions_generateWithAdapter {adapter : AdapterType} {component : Nat → Rat}
    (h : generateWithAdapter adapter config component = some result) :
    result.dimensions = dimensionsOf adapter := by
  cases adapter with
  | localModel => cases h
  | _ =>
    rw [← Option.some.inj h]
    rfl

theorem dimensions_tryAdapters (h : tryAdapters w config adapters = some result) :
    result.dimensions = ((adapters.find? fun a =>
      decide (w.adapter a.2 = .available ∧ a.1 ≠ .localModel)).map fun a => dimensionsOf a.1).getD
        0 := by
  induction adapters with
  | nil => cases h
  | cons a rest ih =>
    obtain ⟨adapter, i⟩ := a
    rw [tryAdapters] at h
    rw [find?_cons]
    cases hi : w.adapter i with
    | available =>
      rw [hi] at h
      cases hresult : generateWithAdapter adapter config w.component with
      | none =>
        simp only [hresult] at h
        simpa [hi, generateWithAdapter_eq_none.mp hresult] using ih h
      | some r =>
        have hne : adapter ≠ .localModel := fun hlocal => by
          rw [generateWithAdapter_eq_none.mpr hlocal] at hresult
          cases hresult
        simp only [hresult, Option.some.injEq] at h
        simp [hne, ← h, dimensions_generateWithAdapter hresult]
    | absent | unavailable | rejects =>
      rw [hi] at h
      simpa using ih h

theorem dimensions_generateEmbedding {text : Text}
    (h : (generateEmbedding s stringify w text none).1 = .ok result) :
    result.dimensions = foundDimensions s stringify w text := by
  simp only [generateEmbedding] at h
  rw [foundDimensions]
  split at h
  · cases h
    rfl
  · split at h
    · rename_i hresult
      cases h
      exact dimensions_tryAdapters hresult
    · cases h

end Embedding

end Bridge.Compression
