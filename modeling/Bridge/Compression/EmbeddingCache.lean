import Bridge.Compression.Service
import Bridge.Lib.Memo
import Bridge.Lib.TextOrder

/-!
# The cache of embeddings

`generateEmbedding` looks for the text before anything is awaited, and keeps what an adapter has
made of it after; between the two other calls may run, and a timer may take any entry out. That is a
memo (`Lib.Memo`) whose questions are the calls; `generateEmbedding_runs` says that a call by itself
is a run of it. -/

namespace Bridge.Compression

open Lib Utf16 Memo List
open Domain (AdapterType)

/-- What `generateEmbedding` is called with. -/
structure EmbeddingCall where
  text : Text
  config : Option EmbeddingConfig
  deriving DecidableEq

structure Conditions where
  adapter : Nat → Availability
  component : Nat → Rat

section EmbeddingCache

variable (s : EmbeddingServiceConfig) (stringify : EmbeddingConfig → Text)

def cacheKey (c : EmbeddingCall) : Text := getCacheKey stringify c.text c.config

/-- All but the cache of a call: what the adapters make of it. -/
def embed (c : EmbeddingCall) (w : Conditions) : Option EmbeddingResult :=
  tryAdapters { cache := .empty, adapter := w.adapter, component := w.component }
    (effectiveConfig s c.config) (adaptersToTry s).zipIdx

abbrev Embeddings := Memo.State EmbeddingCall Text EmbeddingResult

abbrev EmbeddingEvent := Memo.Event EmbeddingCall Text Conditions

def embeddingStep : Embeddings → EmbeddingEvent → Option Embeddings :=
  Memo.step (cacheKey stringify) (embed s)

theorem tryAdapters_cache (w : EmbeddingWorld) (cache : EmbeddingCache) (config : EmbeddingConfig)
    (adapters : List (AdapterType × Nat)) :
    tryAdapters { w with cache := cache } config adapters = tryAdapters w config adapters := by
  induction adapters with
  | nil => rfl
  | cons a adapters ih => simp [tryAdapters, ih]

variable {s stringify}

/-- **A call that nothing comes between is a run of the memo**, with its answer and its cache: the
question is asked, and if nothing is kept for it the work on it ends as this call's adapters let it.
-/
theorem generateEmbedding_runs (hcache : s.cache = true) {st : Embeddings}
    (hpending : st.pending = [])
    {w : EmbeddingWorld} (hw : w.cache = st.kept.mapValues Worked.answer) (c : EmbeddingCall) :
    ∃ events st', (events = [.ask c] ∨ events = [.ask c, .settle 0 ⟨w.adapter, w.component⟩]) ∧
      exec (embeddingStep s stringify) st events = some st' ∧ st'.pending = [] ∧
      (generateEmbedding s stringify w c.text c.config).2 = st'.kept.mapValues Worked.answer ∧
      ((∃ worked, (generateEmbedding s stringify w c.text c.config).1 = .ok worked.answer ∧
          st'.answered = st.answered ++ [(c, worked)]) ∨
        (∃ message, (generateEmbedding s stringify w c.text c.config).1 = .error message) ∧
          st'.answered = st.answered) := by
  have hget : w.cache.get (getCacheKey stringify c.text c.config) =
      (st.kept.get (cacheKey stringify c)).map Worked.answer := by
    rw [hw, OrderedMap.get_mapValues]
    rfl
  cases hkept : st.kept.get (cacheKey stringify c) with
  | some worked =>
    have hgenerate : generateEmbedding s stringify w c.text c.config =
      (.ok worked.answer, w.cache) := by
      simp only [generateEmbedding, hcache, if_true, hget, hkept, Option.map_some]
    have hrun : exec (embeddingStep s stringify) st [.ask c] =
        some { st with answered := st.answered ++ [(c, worked)] } := by
      simp [exec, embeddingStep, Memo.step, Memo.ask, hkept]
    rw [hgenerate]
    exact ⟨_, _, .inl rfl, hrun, hpending, hw, .inl ⟨worked, rfl, rfl⟩⟩
  | none =>
    have hembed : embed s c ⟨w.adapter, w.component⟩ =
        tryAdapters w (effectiveConfig s c.config) (adaptersToTry s).zipIdx :=
      tryAdapters_cache w .empty _ _
    have hrun : exec (embeddingStep s stringify) st [.ask c, .settle 0 ⟨w.adapter, w.component⟩] =
        some (Memo.settle (cacheKey stringify) { st with pending := [c] } 0 c
          (tryAdapters w (effectiveConfig s c.config) (adaptersToTry s).zipIdx)) := by
      simp [exec, embeddingStep, Memo.step, Memo.ask, hkept, hpending, hembed]
    refine ⟨_, _, .inr rfl, hrun, ?_⟩
    cases htry : tryAdapters w (effectiveConfig s c.config) (adaptersToTry s).zipIdx with
    | none =>
      have hgenerate : generateEmbedding s stringify w c.text c.config =
          (.error "Failed to generate embedding with all available adapters", w.cache) := by
        simp only [generateEmbedding, hcache, if_true, hget, hkept, Option.map_none, htry]
      rw [hgenerate]
      exact ⟨rfl, hw, .inr ⟨⟨_, rfl⟩, rfl⟩⟩
    | some result =>
      have hgenerate : generateEmbedding s stringify w c.text c.config =
          (.ok result, w.cache.set (getCacheKey stringify c.text c.config) result) := by
        simp only [generateEmbedding, hcache, if_true, hget, hkept, Option.map_none, htry]
      have hset : (st.kept.set (cacheKey stringify c) ⟨c, result⟩).mapValues Worked.answer =
          (st.kept.mapValues Worked.answer).set (cacheKey stringify c) result :=
          OrderedMap.mapValues_set
      rw [hgenerate, hw]
      exact ⟨rfl, hset.symm, .inl ⟨⟨c, result⟩, rfl, rfl⟩⟩

theorem colon_not_mem_digits (n : Nat) : (0x3A : UInt16) ∉ ofString (toString n) := by
  have hdigits : ':' ∉ Nat.toDigits 10 n := fun h =>
    absurd (Nat.isDigit_of_mem_toDigits (by decide) (by decide) h) (by decide)
  have hmem : (':').toNat.toUInt16 ∉ encode (toString n).toList := by
    rw [mem_encode (by decide), Nat.toString_eq_repr, Nat.toList_repr]
    exact hdigits
  exact hmem

theorem append_cons_cancel {l l' r r' : Units} {u : UInt16} (hl : u ∉ l) (hl' : u ∉ l')
    (h : l ++ u :: r = l' ++ u :: r') : l = l' ∧ r = r' := by
  have htake : ∀ {m q : Units}, u ∉ m → (m ++ u :: q).takeWhile (· ≠ u) = m := by
    intro m q hm
    rw [takeWhile_append_of_pos fun v hv => by
      simpa using fun huv : v = u => hm (huv ▸ hv)]
    simp
  have hprefixes : l = l' := by rw [← htake hl, h, htake hl']
  rw [hprefixes] at h
  exact ⟨hprefixes, (cons.inj (append_cancel_left h)).2⟩

/-- **The key has the length, the first 100 characters and the configuration, and no more.** -/
theorem cacheKey_eq_iff {c c' : EmbeddingCall} : cacheKey stringify c = cacheKey stringify c' ↔
      c.text.length = c'.text.length ∧ c.text.take 100 = c'.text.take 100 ∧
        (c.config.map stringify).getD [] = (c'.config.map stringify).getD [] := by
  have hkey : ∀ c : EmbeddingCall, cacheKey stringify c = ofString (toString c.text.length) ++
      0x3A :: (c.text.take 100 ++ 0x3A :: (c.config.map stringify).getD []) := by
    intro c
    simp only [cacheKey, getCacheKey, append_assoc]
    rfl
  rw [hkey, hkey]
  constructor
  · intro h
    obtain ⟨hdigits, hrest⟩ :=
      append_cons_cancel (colon_not_mem_digits _) (colon_not_mem_digits _) h
    have hlength : c.text.length = c'.text.length := digits_injective hdigits
    -- the lengths agree, so that the colon behind the text is at the same place
    have hstart : (c.text.take 100).length = (c'.text.take 100).length := by
      rw [length_take, length_take, hlength]
    obtain ⟨htext, hconfig⟩ := append_inj hrest hstart
    exact ⟨hlength, htext, (cons.inj hconfig).2⟩
  · rintro ⟨hlength, htext, hconfig⟩
    rw [hlength, htext, hconfig]

theorem workable_iff {c : EmbeddingCall} :
    Workable (embed s) c ↔ ∃ adapter ∈ adaptersToTry s, adapter ≠ .localModel := by
  simp only [Workable, embed, tryAdapters_isSome]
  constructor
  · rintro ⟨w, ⟨adapter, i⟩, hmem, -, hne⟩
    exact ⟨adapter, fst_mem_of_mem_zipIdx hmem, hne⟩
  · rintro ⟨adapter, hmem, hne⟩
    obtain ⟨i, hi⟩ := mem_iff_getElem?.mp hmem
    exact ⟨⟨fun _ => .available, fun _ => 0⟩, (adapter, i), mem_zipIdx_iff_getElem?.mpr hi, rfl,
      hne⟩

/-- **Every embedding returned was made for the text and the configuration of the call exactly if no
two of the calls agree in the length of the text, its first 100 characters and the text of the
configuration**, with an adapter that can embed at all. -/
theorem embeddings_sound_iff (s : EmbeddingServiceConfig) (stringify : EmbeddingConfig → Text)
    (calls : EmbeddingCall → Prop) :
    (∀ st, Reaches (embeddingStep s stringify) (Asks calls) init st →
      ∀ e ∈ st.answered, e.2.question.text = e.1.text ∧ e.2.question.config = e.1.config) ↔
    ((∃ adapter ∈ adaptersToTry s, adapter ≠ .localModel) →
      ∀ c c', calls c → calls c' → c.text.length = c'.text.length →
        c.text.take 100 = c'.text.take 100 →
        (c.config.map stringify).getD [] = (c'.config.map stringify).getD [] → c = c') := by
  have hsame : ∀ c c' : EmbeddingCall, (c.text = c'.text ∧ c.config = c'.config) ↔ c = c' := by
    intro c c'
    cases c
    cases c'
    simp
  have hsound := sound_iff (cacheKey stringify) (embed s) calls
  simp only [workable_iff, cacheKey_eq_iff] at hsound
  simp only [hsame]
  refine hsound.trans ?_
  constructor
  · intro h hadapter c c' hc hc' hlength htext hconfig
    exact h c c' hc hc' hadapter ⟨hlength, htext, hconfig⟩
  · intro h c c' hc hc' hadapter hkey
    exact h hadapter c c' hc hc' hkey.1 hkey.2.1 hkey.2.2

end EmbeddingCache

def wholeNumbers : Details where
  number := fun n => natText n.num.toNat
  toFixed := fun _ => []
  scoreSentence := fun _ _ => 0
  minimalMetadata := fun _ _ => []
  stringify := fun _ => []

def executionOf (output : String) : EmbeddingCall where
  text := extractExecutionData wholeNumbers { output := ofString output, error := none }
    { duration := 1200, tokensUsed := none, retryCount := 0, validationScore := none }
  config := none

def cachingService : EmbeddingServiceConfig where
  preferredAdapter := .claude
  fallbackAdapters := []
  defaultConfig := {}
  cache := true

theorem embedding_of_other_result :
    (executionOf "The tests pass: yes").text ≠ (executionOf "The tests pass: no!").text ∧
    (exec (embeddingStep cachingService wholeNumbers.stringify) init
        [.ask (executionOf "The tests pass: yes"), .settle 0 ⟨fun _ => .available, fun _ => 0⟩,
          .ask (executionOf "The tests pass: no!")]).map
        (fun st => st.answered.map fun e => (e.1, e.2.question)) =
      some [(executionOf "The tests pass: yes", executionOf "The tests pass: yes"),
        (executionOf "The tests pass: no!", executionOf "The tests pass: yes")] :=
  ⟨by decide +kernel, by decide +kernel⟩

end Bridge.Compression
