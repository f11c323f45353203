import Mathlib.Data.List.Induction
import Mathlib.Data.List.Sort
import Bridge.Cache.Service
import Bridge.Lib.JsonText

/-!
# `TaskCacheService`

Results of tasks, cached under a key made of the task's type, its prompt and its adapter. The key is
a hash of the JSON text of three fields, and two of the fields do not say all of what they stand
for: of the prompt only the first hundred units go in, and no adapter, the empty one and one named
`any` are all `any`.
-/

namespace Bridge.Cache

open Lib List Option

/-! ## Keys -/

section Keys

-- `createHash('sha256').update(·).digest('hex')`
variable (sha256 : Text → Text)

def shortHash (s : Text) : Text := (sha256 s).take 8

/-- `JSON.stringify` of an object of strings. -/
def stringify (members : List (Text × Text)) : Text :=
  JsonText.print Empty.elim (.obj (members.map fun f => (f.1, .str f.2)))

def paramString (params : List (Text × Text)) : Text :=
  stringify (params.insertionSort fun f g => f.1 ≤ g.1)

def generateKey (pre : Text) (params : List (Text × Text)) : Text :=
  pre ++ text ":" ++ shortHash sha256 (paramString params)

/-- `adapter || 'any'` -/
def adapterOrAny (adapter : Option Text) : Text := (adapter.filter (· ≠ [])).getD (text "any")

def taskParams (taskType prompt : Text) (adapter : Option Text) : List (Text × Text) :=
  [(text "type", taskType), (text "prompt", prompt.take 100),
    (text "adapter", adapterOrAny adapter)]

def generateTaskKey (taskType prompt : Text) (adapter : Option Text) : Text :=
  generateKey sha256 (text "task") (taskParams taskType prompt adapter)

end Keys

theorem stringify_injective : Function.Injective stringify := by
  have hdigits : JsonText.Digits Empty.elim := ⟨fun a => a.elim, fun a => a.elim, fun a => a.elim⟩
  intro ms ms' h
  have hobj := JsonText.print_injective hdigits h
  simp only [Json.obj.injEq] at hobj
  refine map_injective_iff.mpr ?_ hobj
  intro f g hfg
  simpa [Prod.ext_iff] using hfg

theorem insertionSort_taskParams (taskType prompt : Text) (adapter : Option Text) :
    (taskParams taskType prompt adapter).insertionSort (fun f g => f.1 ≤ g.1) =
      [(text "adapter", adapterOrAny adapter), (text "prompt", prompt.take 100),
        (text "type", taskType)] := by
  have h₁ : ¬ text "prompt" ≤ text "adapter" := by decide
  have h₂ : ¬ text "type" ≤ text "adapter" := by decide
  have h₃ : ¬ text "type" ≤ text "prompt" := by decide
  simp [taskParams, insertionSort, orderedInsert, h₁, h₂, h₃]

theorem paramString_taskParams {t t' p p' : Text} {a a' : Option Text} :
    paramString (taskParams t p a) = paramString (taskParams t' p' a') ↔
      t = t' ∧ p.take 100 = p'.take 100 ∧ adapterOrAny a = adapterOrAny a' := by
  rw [paramString, paramString, stringify_injective.eq_iff, insertionSort_taskParams,
    insertionSort_taskParams]
  simp only [cons.injEq, Prod.mk.injEq, true_and, and_true]
  exact ⟨fun h => ⟨h.2.2, h.2.1, h.1⟩, fun h => ⟨h.2.2, h.2.1, h.1⟩⟩

theorem generateTaskKey_eq {sha256 : Text → Text} {t t' p p' : Text} {a a' : Option Text} :
    generateTaskKey sha256 t p a = generateTaskKey sha256 t' p' a' ↔
      shortHash sha256 (paramString (taskParams t p a)) =
        shortHash sha256 (paramString (taskParams t' p' a')) := by
  simp [generateTaskKey, generateKey, append_cancel_left_eq]

/-! ## The service -/

/-- A time to live: a number of milliseconds, or what a plain object inherits under a name such as
`constructor`, which `ttlMap[taskType]` finds too. -/
inductive Ttl
  | ms (n : Nat)
  | inherited

def ttlMap : List (Text × Nat) :=
  [(text "CODE_GENERATION", 1000 * 60 * 60 * 24), (text "CODE_REVIEW", 1000 * 60 * 60 * 12),
    (text "DEBUGGING", 1000 * 60 * 60 * 6), (text "SEARCH", 1000 * 60 * 30),
    (text "VALIDATION", 1000 * 60 * 60 * 48), (text "DEFAULT", 1000 * 60 * 60 * 12)]

def inheritedNames : List Text :=
  ["constructor", "__defineGetter__", "__defineSetter__", "hasOwnProperty", "__lookupGetter__",
    "__lookupSetter__", "isPrototypeOf", "propertyIsEnumerable", "toString", "valueOf",
    "__proto__", "toLocaleString"].map text

def getTtlForTaskType (taskType : Text) : Ttl :=
  match ttlMap.lookup taskType with
  | some n => .ms n
  | none => if taskType ∈ inheritedNames then .inherited else .ms (1000 * 60 * 60 * 12)

/-- A cache that behaves as a map on the keys of task results. -/
structure MapCache (sha256 : Text → Text) (σ : Type) where
  empty : σ
  get : σ → Text → Option Text
  set : σ → Text → Text → Ttl → List Text → σ
  get_empty : ∀ t p a, get empty (generateTaskKey sha256 t p a) = none
  get_set : ∀ s t p a v ttl tags t' p' a',
    get (set s (generateTaskKey sha256 t p a) v ttl tags) (generateTaskKey sha256 t' p' a') =
      if generateTaskKey sha256 t' p' a' = generateTaskKey sha256 t p a then some v
      else get s (generateTaskKey sha256 t' p' a')

def MapCache.function (sha256 : Text → Text) : MapCache sha256 (Text → Option Text) where
  empty _ := none
  get s k := s k
  set s k v _ _ := fun k' => if k' = k then some v else s k'
  get_empty _ _ _ := rfl
  get_set _ _ _ _ _ _ _ _ _ _ := rfl

/-- A call of `cacheResult`. -/
structure Cached where
  taskType : Text
  prompt : Text
  result : Text
  adapter : Text
  ttl : Option Nat := none

namespace MapCache

variable {sha256 : Text → Text} {σ : Type} (cache : MapCache sha256 σ)

def getCachedResult (s : σ) (taskType prompt : Text) (adapter : Option Text) : Option Text :=
  cache.get s (generateTaskKey sha256 taskType prompt adapter)

def cacheResult (s : σ) (c : Cached) : σ :=
  let key := generateTaskKey sha256 c.taskType c.prompt (some c.adapter)
  let cacheTtl := match c.ttl.filter (· ≠ 0) with
    | some n => .ms n
    | none => getTtlForTaskType c.taskType
  cache.set s key c.result cacheTtl [c.taskType, c.adapter]

def after (history : List Cached) : σ := history.foldl cache.cacheResult cache.empty

/-- **An answer is the result of the latest call with the same key.** -/
theorem getCachedResult_after (history : List Cached) (t p : Text) (a : Option Text) :
    cache.getCachedResult (cache.after history) t p a =
      (history.reverse.find? fun c => generateTaskKey sha256 t p a =
        generateTaskKey sha256 c.taskType c.prompt (some c.adapter)).map (·.result) := by
  induction history using reverseRecOn with
  | nil => exact cache.get_empty t p a
  | append_singleton history c ih =>
    simp only [after, foldl_append, foldl_cons, foldl_nil, reverse_append,
      reverse_cons, reverse_nil, nil_append, cons_append, find?_cons]
    rw [getCachedResult, cacheResult, cache.get_set]
    split_ifs with hkey
    · simp [hkey]
    · simp only [hkey, decide_false]
      exact ih

end MapCache

/-! ## Soundness -/

namespace Cached

def hashed (c : Cached) : Text := paramString (taskParams c.taskType c.prompt (some c.adapter))

def With (c : Cached) (t p : Text) (a : Option Text) : Prop :=
  c.taskType = t ∧ c.prompt = p ∧ some c.adapter = a

/-- Prompt and adapter go into the key as they are: the prompt is not cut, and the adapter is not
one that others are taken for. -/
def Whole (c : Cached) : Prop :=
  c.prompt.length < 100 ∧ c.adapter ≠ [] ∧ c.adapter ≠ text "any"

theorem adapterOrAny_of_ne {adapter : Text} (h : adapter ≠ []) :
    adapterOrAny (some adapter) = adapter := by
  simp [adapterOrAny, Option.filter, h]

instance {c : Cached} : Decidable c.Whole :=
  inferInstanceAs (Decidable (c.prompt.length < 100 ∧ c.adapter ≠ [] ∧ c.adapter ≠ text "any"))

theorem Whole.eq_of_fields {c : Cached} (h : c.Whole) {t p : Text} {a : Option Text}
    (ht : t = c.taskType) (hp : p.take 100 = c.prompt.take 100)
    (ha : adapterOrAny a = adapterOrAny (some c.adapter)) : c.With t p a := by
  obtain ⟨hlen, hne, hany⟩ := h
  refine ⟨ht.symm, ?_, ?_⟩
  · rw [take_of_length_le (Nat.le_of_lt hlen)] at hp
    have hshort : p.length ≤ 100 := by
      have hlen' := congrArg length hp
      rw [length_take] at hlen'
      omega
    rw [← hp, take_of_length_le hshort]
  · rw [adapterOrAny_of_ne hne] at ha
    cases a with
    | none => exact absurd ha.symm hany
    | some x =>
      by_cases hx : x = []
      · subst hx
        exact absurd ha.symm hany
      · rw [adapterOrAny_of_ne hx] at ha
        rw [ha]

theorem exists_longest (history : List Cached) : ∃ n, ∀ c ∈ history, c.prompt.length ≤ n := by
  induction history with
  | nil => exact ⟨0, by simp⟩
  | cons c rest ih =>
    obtain ⟨n, hn⟩ := ih
    refine ⟨max c.prompt.length n, ?_⟩
    intro c' hc'
    obtain rfl | hrest := mem_cons.mp hc'
    · exact Nat.le_max_left _ _
    · exact Nat.le_trans (hn c' hrest) (Nat.le_max_right _ _)

theorem exists_alike {c : Cached} (h : ¬ c.Whole) (history : List Cached) :
    ∃ p a, paramString (taskParams c.taskType p a) = c.hashed ∧
      ∀ c' ∈ history, ¬ c'.With c.taskType p a := by
  simp only [hashed, paramString_taskParams, true_and]
  by_cases hlen : c.prompt.length < 100
  · -- the adapter is `any` already, which is what no adapter at all becomes
    have hadapter : adapterOrAny none = adapterOrAny (some c.adapter) := by
      by_cases hne : c.adapter = []
      · rw [hne]
        rfl
      · by_cases hany : c.adapter = text "any"
        · rw [hany]
          decide
        · exact absurd ⟨hlen, hne, hany⟩ h
    exact ⟨c.prompt, none, ⟨rfl, hadapter⟩, fun c' _ hw => absurd hw.2.2 (by simp)⟩
  · -- a longer prompt than any in the history, with the same first hundred units
    obtain ⟨longest, hlongest⟩ := exists_longest history
    refine ⟨c.prompt ++ replicate (longest + 1) 0x61, some c.adapter,
      ⟨take_append_of_le_length (by omega), rfl⟩, ?_⟩
    intro c' hc' hw
    have hle := hlongest c' hc'
    have hlen' := congrArg length hw.2.1
    simp only [length_append, length_replicate] at hlen'
    omega

end Cached

def NoCollision (sha256 : Text → Text) (history : List Cached) : Prop :=
  ∀ c ∈ history, ∀ c' ∈ history,
    shortHash sha256 c.hashed = shortHash sha256 c'.hashed → c.hashed = c'.hashed

/-- The text hashed for a query has the hash of one of the history only if it is that text. -/
def Distinguished (sha256 : Text → Text) (history : List Cached) (t p : Text) (a : Option Text) :
    Prop :=
  ∀ c ∈ history, shortHash sha256 (paramString (taskParams t p a)) = shortHash sha256 c.hashed →
    paramString (taskParams t p a) = c.hashed

/-- **Cached results are sound iff every call cached is whole.** -/
theorem cached_result_sound_iff {sha256 : Text → Text} {σ : Type} (cache : MapCache sha256 σ)
    (history : List Cached) (hnc : NoCollision sha256 history) :
    (∀ t p a r, Distinguished sha256 history t p a →
        cache.getCachedResult (cache.after history) t p a = some r →
        ∃ c ∈ history, c.With t p a ∧ c.result = r) ↔
      ∀ c ∈ history, c.Whole := by
  constructor
  · intro hsound c hc
    refine Decidable.byContradiction ?_
    intro hwhole
    obtain ⟨p, a, hsame, hnever⟩ := Cached.exists_alike hwhole history
    have hdist : Distinguished sha256 history c.taskType p a := by
      intro c' hc' heq
      rw [hsame] at heq ⊢
      exact hnc c hc c' hc' heq
    have hsome : (cache.getCachedResult (cache.after history) c.taskType p a).isSome := by
      rw [cache.getCachedResult_after, isSome_map, find?_isSome]
      refine ⟨c, mem_reverse.mpr hc, ?_⟩
      rw [decide_eq_true_eq, generateTaskKey_eq, hsame]
      rfl
    obtain ⟨r, hr⟩ := isSome_iff_exists.mp hsome
    obtain ⟨c', hc', hw, -⟩ := hsound _ _ _ r hdist hr
    exact hnever c' hc' hw
  · intro hwhole t p a r hdist hr
    rw [cache.getCachedResult_after] at hr
    obtain ⟨c, hfind, rfl⟩ := map_eq_some_iff.mp hr
    have hc : c ∈ history := mem_reverse.mp (mem_of_find?_eq_some hfind)
    have hkey : generateTaskKey sha256 t p a = generateTaskKey sha256 c.taskType c.prompt
        (some c.adapter) := by simpa using find?_some hfind
    obtain ⟨ht, hp, ha⟩ := paramString_taskParams.mp (hdist c hc (generateTaskKey_eq.mp hkey))
    exact ⟨c, hc, (hwhole c hc).eq_of_fields ht hp ha, rfl⟩

def lengthHash (s : Text) : Text := [s.length.toUInt16]

theorem cached_result_sound_short : ∃ c₁ c₂ : Cached, c₁.result ≠ c₂.result ∧
      (MapCache.function lengthHash).getCachedResult ((MapCache.function lengthHash).after [c₁, c₂])
        (text "SEARCH") (text "a") (some (text "gemini")) = some c₁.result ∧
      ∀ t p a r, Distinguished lengthHash [c₁, c₂] t p a →
        (MapCache.function lengthHash).getCachedResult
          ((MapCache.function lengthHash).after [c₁, c₂]) t p a = some r →
        ∃ c ∈ [c₁, c₂], c.With t p a ∧ c.result = r := by
  let c₁ : Cached := ⟨text "SEARCH", text "a", text "one", text "gemini", none⟩
  let c₂ : Cached := ⟨text "SEARCH", text "bb", text "two", text "gemini", none⟩
  have hnc : NoCollision lengthHash [c₁, c₂] := by
    have hne : shortHash lengthHash c₁.hashed ≠ shortHash lengthHash c₂.hashed := by decide
    intro c hc c' hc' heq
    obtain rfl | rfl : c = c₁ ∨ c = c₂ := by simpa using hc
    · obtain rfl | rfl : c' = c₁ ∨ c' = c₂ := by simpa using hc'
      · rfl
      · exact absurd heq hne
    · obtain rfl | rfl : c' = c₁ ∨ c' = c₂ := by simpa using hc'
      · exact absurd heq.symm hne
      · rfl
  refine ⟨c₁, c₂, by decide, by decide, ?_⟩
  refine (cached_result_sound_iff (MapCache.function _) [c₁, c₂] hnc).mpr ?_
  intro c hc
  obtain rfl | rfl : c = c₁ ∨ c = c₂ := by simpa using hc
  · decide
  · decide

theorem serves_another_prompt : ∃ c : Cached, NoCollision lengthHash [c] ∧ (∃ p, p ≠ c.prompt ∧
        Distinguished lengthHash [c] c.taskType p (some c.adapter) ∧
        (MapCache.function lengthHash).getCachedResult
          ((MapCache.function lengthHash).after [c]) c.taskType p (some c.adapter) =
            some c.result) ∧
      Distinguished lengthHash [c] c.taskType c.prompt none ∧
      (MapCache.function lengthHash).getCachedResult
        ((MapCache.function lengthHash).after [c]) c.taskType c.prompt none = some c.result := by
  let c : Cached :=
    ⟨text "SEARCH", replicate 100 0x61 ++ [0x62], text "one", text "any", none⟩
  have hcut : ∀ u, (replicate 100 (0x61 : UInt16) ++ [u]).take 100 = replicate 100 0x61 :=
    fun u => take_left' length_replicate
  have hsame : paramString (taskParams c.taskType (replicate 100 0x61 ++ [0x63]) (some c.adapter))
      = c.hashed := by
    refine paramString_taskParams.mpr ⟨rfl, ?_, rfl⟩
    exact (hcut 0x63).trans (hcut 0x62).symm
  have hnone : paramString (taskParams c.taskType c.prompt none) = c.hashed :=
    paramString_taskParams.mpr ⟨rfl, rfl, by decide⟩
  have hserved : ∀ {p : Text} {a : Option Text}, paramString (taskParams c.taskType p a) =
      c.hashed → Distinguished lengthHash [c] c.taskType p a ∧
      (MapCache.function lengthHash).getCachedResult
        ((MapCache.function lengthHash).after [c]) c.taskType p a = some c.result := by
    intro p a h
    refine ⟨?_, if_pos (generateTaskKey_eq.mpr (congrArg _ h))⟩
    intro c' hc' _
    rw [mem_singleton.mp hc']
    exact h
  refine ⟨c, ?_, ⟨_, ?_, hserved hsame⟩, hserved hnone⟩
  · intro c₁ h₁ c₂ h₂ _
    rw [mem_singleton.mp h₁, mem_singleton.mp h₂]
  · intro heq
    exact absurd (append_cancel_left heq) (by decide)

end Bridge.Cache
