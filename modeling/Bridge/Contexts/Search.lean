import Bridge.Contexts.Index
import Bridge.Lib.StableSort

/-!
# Criteria of a search

A search is meant to be conjunctive: what it returns meets every criterion it was given. The filters
of `search` are. The similarity is not one of them: it is looked for by `findSimilar`, which starts
from the whole store, and of the contexts that passed the filters only their number is handed on, as
a limit. -/

namespace Bridge.Contexts

open Lib Repository List

/-! ## What it is to meet the criteria -/

def Passes (criteria : SearchCriteria) (c : CompressedContext) : Prop :=
  (∀ taskId ∈ criteria.taskId, c.taskId = taskId) ∧
  (∀ type ∈ criteria.compressionType, c.compressionType = type) ∧
  (∀ tags ∈ criteria.tags, ∀ tag ∈ tags, tag ∈ c.tags) ∧
  (∀ date ∈ criteria.createdAfter, Moment.upTo date (some c.createdAt) = true) ∧
  (∀ date ∈ criteria.createdBefore, Moment.upTo (some c.createdAt) date = true) ∧
  (∀ ratio ∈ criteria.minCompressionRatio, Num.le ratio c.compressionRatio = true) ∧
  (∀ ratio ∈ criteria.maxCompressionRatio, Num.le c.compressionRatio ratio = true)

instance (criteria : SearchCriteria) (c : CompressedContext) : Decidable (Passes criteria c) :=
  inferInstanceAs (Decidable (_ ∧ _))

section Criteria

variable (cosine : Embedding → Embedding → Num) (criteria : SearchCriteria) (c : CompressedContext)

/-- How similar two contexts are; `NaN` where one of them has no embedding. -/
def similarity (target c : CompressedContext) : Num :=
  (extractEmbedding target).bind fun a => (extractEmbedding c).bind fun b => cosine a b

/-- The similarity: at least the score that is given, and `0.7` where none is. -/
def Resembles : Prop :=
  ∀ target ∈ criteria.similarTo,
    Num.le (criteria.minSimilarityScore.getD (some defaultMinSimilarity))
      (similarity cosine target c) = true

def Meets : Prop :=
  Passes criteria c ∧ Resembles cosine criteria c

end Criteria

theorem forall_tags_iff {criterion : Option (List String)} {c : CompressedContext} :
    (∀ tags ∈ criterion.filter (·.length > 0), (tags.all fun tag => decide (tag ∈ c.tags)) = true) ↔
      ∀ tags ∈ criterion, ∀ tag ∈ tags, tag ∈ c.tags := by
  cases criterion with
  | none => simp
  | some tags =>
    cases tags with
    | nil | cons => simp

theorem filtered_eq_filter (s : Repository) (criteria : SearchCriteria) :
    s.filtered criteria = s.contexts.values.filter fun c => decide (Passes criteria c) := by
  simp only [filtered, narrow_eq_filter, filter_filter]
  refine filter_congr ?_
  intro c _
  rw [Bool.eq_iff_iff]
  simp only [Bool.and_eq_true, decide_eq_true_eq, Option.all_eq_true, ← Option.mem_def,
    forall_tags_iff]
  unfold Passes
  tauto

variable {cosine : Embedding → Embedding → Num} {s : Repository} {criteria : SearchCriteria}
  {target c : CompressedContext}

/-! ## The most similar contexts -/

theorem hasEmbeddings_eq (c : CompressedContext) :
    hasEmbeddings c = (extractEmbedding c).isSome := by
  simp only [hasEmbeddings, extractEmbedding, any_cons, any_nil, findSome?_cons, findSome?_nil]
  cases usable c.phases.analysis <;> cases usable c.phases.routing <;>
    cases usable c.phases.execution <;> rfl

/-- The similarity of a context other than the target, if it is enough. -/
def enough (cosine : Embedding → Embedding → Num) (target : CompressedContext) (least : Extended)
    (c : CompressedContext) : Option Extended :=
  if c.id = target.id then none
  else (similarity cosine target c).filter fun x => decide (least ≤ x)

theorem candidate_eq {e : Embedding} {least : Extended} (he : extractEmbedding target = some e) :
    candidate cosine target e (some least) c = (enough cosine target least c).map (c, ·) := by
  rw [candidate, enough, hasEmbeddings_eq, similarity, he]
  split_ifs with hid hc
  · rfl
  · obtain ⟨e', he'⟩ := Option.isSome_iff_exists.mp hc
    rw [he']
    simp only [Option.bind_some]
    cases cosine e e' with
    | none => rfl
    | some x =>
      by_cases hx : least ≤ x
      · simp [Num.le, hx]
      · simp [Num.le, hx, lt_of_not_ge hx]
  · rw [Option.not_isSome_iff_eq_none.mp hc]
    rfl

/-- Every stored context that is similar enough, with its place in the store. -/
def similarOnes (cosine : Embedding → Embedding → Num) (s : Repository) (target : CompressedContext)
    (least : Extended) : List ((CompressedContext × Nat) × Extended) :=
  s.contexts.values.zipIdx.filterMap fun p => (enough cosine target least p.1).map (p, ·)

theorem findSimilar_eq (cosine : Embedding → Embedding → Num) (s : Repository)
    (target : CompressedContext) (limit : Nat) (least : Extended) :
    (s.findSimilar cosine target limit (some least)).map Prod.fst =
      ((sortDescending Prod.snd (similarOnes cosine s target least)).take limit).map (·.1.1) := by
  have hfound : s.findSimilar cosine target limit (some least) =
      (sortDescending Prod.snd (s.contexts.values.filterMap fun c =>
        (enough cosine target least c).map (c, ·))).take limit := by
    rw [findSimilar, hasEmbeddings_eq]
    cases he : extractEmbedding target with
    | some e =>
      simp only [Option.isSome_some, if_true, candidate_eq he]
      rfl
    | none =>
      have hnone : ∀ c, enough cosine target least c = none := by
        intro c
        simp [enough, similarity, he]
      simp [hnone, sortDescending]
  have hvalues : (s.contexts.values.filterMap fun c => (enough cosine target least c).map (c, ·)) =
      (similarOnes cosine s target least).map fun q => (q.1.1, q.2) := by
    nth_rewrite 1 [← zipIdx_map_fst 0 s.contexts.values]
    rw [similarOnes, map_filterMap, filterMap_map]
    refine filterMap_congr fun p _ => ?_
    simp [Function.comp_def]
  have hsort := map_mergeSort (f := fun q : (CompressedContext × Nat) × Extended => (q.1.1, q.2))
    (r := fun a b => decide (b.2 ≤ a.2)) (s := fun a b => decide (b.2 ≤ a.2))
    (l := similarOnes cosine s target least) fun _ _ _ _ => rfl
  rw [hfound, hvalues, sortDescending, ← hsort, ← map_take, map_map]
  rfl

theorem pairwise_similarOnes (s : Repository) (target : CompressedContext) (least : Extended) :
    (similarOnes cosine s target least).Pairwise fun a b => a.1.2 < b.1.2 := by
  refine pairwise_filterMap.mpr ?_
  have hsorted : (s.contexts.values.zipIdx.map Prod.snd).Pairwise (· < ·) := by
    rw [zipIdx_map_snd]
    exact pairwise_lt_range'
  refine (pairwise_map.mp hsorted).imp ?_
  intro p q hlt a ha b hb
  obtain ⟨x, -, rfl⟩ := Option.map_eq_some_iff.mp ha
  obtain ⟨y, -, rfl⟩ := Option.map_eq_some_iff.mp hb
  exact hlt

/-- `p` comes before `q`: it is more similar, or as similar and stored before. -/
def Precedes (similar : CompressedContext → Option Extended) (p q : CompressedContext × Nat) :
    Bool :=
  ((similar p.1).bind fun x => (similar q.1).map fun y =>
    decide (y < x ∨ x = y ∧ p.2 < q.2)).getD false

/-- A stored context is similar enough, and fewer come before it than pass the filters. -/
def MostSimilar (cosine : Embedding → Embedding → Num) (s : Repository) (criteria : SearchCriteria)
    (target : CompressedContext) (p : CompressedContext × Nat) : Prop :=
  (enough cosine target (minSimilarity criteria) p.1).isSome = true ∧
    s.contexts.values.zipIdx.countP (Precedes (enough cosine target (minSimilarity criteria)) · p) <
      s.contexts.values.countP fun c => decide (Passes criteria c)

instance (p : CompressedContext × Nat) : Decidable (MostSimilar cosine s criteria target p) :=
  inferInstanceAs (Decidable (_ ∧ _))

theorem mem_search_of_similarTo (h : criteria.similarTo = some target) :
    c ∈ s.search cosine criteria ↔
      ∃ p ∈ s.contexts.values.zipIdx, MostSimilar cosine s criteria target p ∧ p.1 = c := by
  have hlimit : (s.filtered criteria).length =
      s.contexts.values.countP fun c => decide (Passes criteria c) := by
    rw [filtered_eq_filter, countP_eq_length_filter]
  have hbefore : ∀ (p : CompressedContext × Nat) (x : Extended),
      enough cosine target (minSimilarity criteria) p.1 = some x →
      (similarOnes cosine s target (minSimilarity criteria)).countP (fun q =>
        decide (x < q.2 ∨ q.2 = x ∧ q.1.2 < p.2)) =
      s.contexts.values.zipIdx.countP
        (Precedes (enough cosine target (minSimilarity criteria)) · p) := by
    intro p x hx
    rw [similarOnes, countP_filterMap]
    refine countP_congr fun q _ => ?_
    rw [Precedes, hx]
    cases enough cosine target (minSimilarity criteria) q.1 <;> simp
  simp only [search, h, findSimilar_eq, hlimit, mem_map]
  constructor
  · rintro ⟨⟨p, x⟩, hq, rfl⟩
    rw [mem_take_sortDescending (fun a b => lt_asymm) (pairwise_similarOnes s target _)] at hq
    obtain ⟨hmem, hcount⟩ := hq
    obtain ⟨p', hp, heq⟩ := mem_filterMap.mp hmem
    obtain ⟨x', hx, heq'⟩ := Option.map_eq_some_iff.mp heq
    cases heq'
    exact ⟨p, hp, ⟨by rw [hx]; rfl, hbefore p x hx ▸ hcount⟩, rfl⟩
  · rintro ⟨p, hp, ⟨hsome, hcount⟩, rfl⟩
    obtain ⟨x, hx⟩ := Option.isSome_iff_exists.mp hsome
    refine ⟨(p, x), ?_, rfl⟩
    rw [mem_take_sortDescending (fun a b => lt_asymm) (pairwise_similarOnes s target _)]
    refine ⟨mem_filterMap.mpr ⟨p, hp, by rw [hx]; rfl⟩, ?_⟩
    rw [← hbefore p x hx] at hcount
    exact hcount

theorem Num.le_trans {a b c : Num} (hab : Num.le a b = true) (hbc : Num.le b c = true) :
    Num.le a c = true := by
  cases a with
  | none => cases hab
  | some a =>
    cases b with
    | none => cases hab
    | some b =>
      cases c with
      | none => cases hbc
      | some c => exact decide_eq_true ((of_decide_eq_true hab).trans (of_decide_eq_true hbc))

theorem zero_le_defaultMinSimilarity : Num.le (some 0) (some defaultMinSimilarity) = true := by
  decide +kernel

theorem score_le_minSimilarity (h : criteria.minSimilarityScore ≠ some none) :
    Num.le (criteria.minSimilarityScore.getD (some defaultMinSimilarity))
      (some (minSimilarity criteria)) = true := by
  unfold minSimilarity
  cases hscore : criteria.minSimilarityScore with
  | none => exact decide_eq_true le_rfl
  | some score =>
    cases score with
    | none => exact absurd hscore h
    | some x =>
      simp only [Option.getD_some]
      by_cases hx : x = 0
      · rw [if_pos hx, hx]
        exact zero_le_defaultMinSimilarity
      · rw [if_neg hx]
        exact decide_eq_true le_rfl

/-! ## Searches -/

theorem search_perm (h : criteria.similarTo = none) :
    (s.search cosine criteria).Perm (s.contexts.values.filter fun c => decide
      (Passes criteria c)) := by
  simp only [search, h, ← filtered_eq_filter]
  exact newestFirst_perm _

theorem resembles_of_none (h : criteria.similarTo = none) : Resembles cosine criteria c := by
  intro target htarget
  simp [h] at htarget

theorem mem_search_of_none (h : criteria.similarTo = none) :
    c ∈ s.search cosine criteria ↔ c ∈ s.contexts.values ∧ Meets cosine criteria c := by
  rw [(search_perm h).mem_iff, mem_filter, decide_eq_true_eq, Meets]
  exact and_congr_right fun _ => (and_iff_left (resembles_of_none h)).symm

theorem resembles_of_mostSimilar {p : CompressedContext × Nat}
    (h : criteria.similarTo = some target)
    (hscore : criteria.minSimilarityScore ≠ some none)
      (hp : MostSimilar cosine s criteria target p) :
    Resembles cosine criteria p.1 := by
  intro target' htarget
  obtain rfl := Option.some.inj (h.symm.trans htarget)
  obtain ⟨x, hx⟩ := Option.isSome_iff_exists.mp hp.1
  rw [enough] at hx
  split_ifs at hx
  obtain ⟨hsim, hle⟩ := Option.filter_eq_some_iff.mp hx
  rw [hsim]
  exact Num.le_trans (score_le_minSimilarity hscore) hle

theorem not_resembles_of_nan (h : criteria.similarTo = some target)
    (hnan : criteria.minSimilarityScore = some none) : ¬ Resembles cosine criteria c := by
  intro hres
  have hle := hres target h
  rw [hnan] at hle
  cases hle

def one : Extended := .ofRat 1

def embedded (id taskId : String) : CompressedContext where
  id := id
  taskId := taskId
  compressionType := .embeddings
  phases := ⟨some [some one], some [some one], some [some one]⟩
  compressionRatio := some 0
  createdAt := 0
  accessedAt := none
  tags := []

/-- The cosine of `[1]` and `[1]` is `1`. -/
def alike : Embedding → Embedding → Num := fun _ _ => some one

def twoTasks : Repository := run [.save (embedded "a" "t"), .save (embedded "b" "u")]

/-- Contexts of a task that are similar to `a`. -/
def similarOf (taskId : String) : SearchCriteria :=
  { taskId := some taskId, similarTo := some (embedded "a" "t") }

theorem mem_search_similarOf (taskId : String)
    (h : MostSimilar alike twoTasks (similarOf taskId) (embedded "a" "t") (embedded "b" "u", 1)) :
    embedded "b" "u" ∈ twoTasks.search alike (similarOf taskId) := by
  have hvalues : twoTasks.contexts.values = [embedded "a" "t", embedded "b" "u"] := rfl
  exact (mem_search_of_similarTo rfl).mpr ⟨_, by simp [hvalues], h, rfl⟩

end Bridge.Contexts
