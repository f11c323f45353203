import Mathlib.Analysis.SpecialFunctions.Sqrt

/-!
# Three cosine similarities

The same loop stands in the entity, in the embedding service and in the repository, with other
guards in front of the division: two of them throw where the lengths differ and one answers 0, and
two of them answer 0 for a vector of zeros where the third divides 0 by 0. Numbers are exact, so the
definitions do not compute. -/

namespace Bridge.Contexts.Similarity

open List

/-- A number, one of the values that a division by zero has, or an error. -/
inductive Outcome
  | value (x : ℝ)
  | infinite
  | nan
  | error (message : String)

/-- `dotProduct`, `normA` and `normB` after the loop. -/
def sums (a b : List ℝ) : ℝ × ℝ × ℝ :=
  (a.zip b).foldl (fun (dotProduct, normA, normB) (x, y) =>
    (dotProduct + x * y, normA + x * x, normB + y * y)) (0, 0, 0)

noncomputable section

def divide (x y : ℝ) : Outcome :=
  open Classical in if y = 0 then (if x = 0 then .nan else .infinite) else .value (x / y)

def quotient (a b : List ℝ) : Outcome :=
  let (dotProduct, normA, normB) := sums a b
  divide dotProduct (√normA * √normB)

/-- The quotient behind the guard for vectors of zeros. -/
def guarded (a b : List ℝ) : Outcome :=
  let (_, normA, normB) := sums a b
  open Classical in if normA = 0 ∨ normB = 0 then .value 0 else quotient a b

/-- `CompressedContext.cosineSimilarity` -/
def contextCosine (a b : List ℝ) : Outcome :=
  if a.length ≠ b.length then .error "Embeddings must have the same dimensions" else quotient a b

/-- `EmbeddingService.cosineSimilarity` -/
def serviceCosine (a b : List ℝ) : Outcome :=
  if a.length ≠ b.length then .error "Vectors must have the same dimensions" else guarded a b

/-- `InMemoryCompressedContextRepository.calculateCosineSimilarity` -/
def repositoryCosine (a b : List ℝ) : Outcome :=
  if a.length ≠ b.length then .value 0 else guarded a b

end

section Norms

variable {a b : List ℝ}

theorem foldl_sums (l : List (ℝ × ℝ)) (d p q : ℝ) :
    l.foldl (fun (dotProduct, normA, normB) (x, y) =>
      (dotProduct + x * y, normA + x * x, normB + y * y)) (d, p, q) =
      (d + (l.map fun v => v.1 * v.2).sum, p + (l.map fun v => v.1 * v.1).sum,
        q + (l.map fun v => v.2 * v.2).sum) := by
  induction l generalizing d p q with
  | nil => simp
  | cons v l ih => simp [ih, add_assoc]

theorem sum_squares_eq_zero {α : Type} {l : List α} {f : α → ℝ} :
    (l.map fun v => f v * f v).sum = 0 ↔ ∀ v ∈ l, f v = 0 := by
  induction l with
  | nil => simp
  | cons v l ih =>
    have hrest : 0 ≤ (l.map fun v => f v * f v).sum := by
      apply sum_nonneg
      simp only [mem_map]
      rintro x ⟨v, -, rfl⟩
      exact mul_self_nonneg _
    rw [map_cons, sum_cons, add_eq_zero_iff_of_nonneg (mul_self_nonneg _) hrest,
      mul_self_eq_zero, ih, forall_mem_cons]

/-- The norms of vectors of one length are zero iff the vectors are. -/
theorem norms_eq_zero (h : a.length = b.length) :
    ((sums a b).2.1 = 0 ↔ ∀ x ∈ a, x = 0) ∧ ((sums a b).2.2 = 0 ↔ ∀ y ∈ b, y = 0) := by
  have hfst : (a.zip b).map Prod.fst = a := map_fst_zip h.le
  have hsnd : (a.zip b).map Prod.snd = b := map_snd_zip h.ge
  rw [sums, foldl_sums]
  simp only [zero_add]
  rw [sum_squares_eq_zero, sum_squares_eq_zero]
  constructor
  · rw [← forall_mem_map (P := fun x => x = 0), hfst]
  · rw [← forall_mem_map (P := fun x => x = 0), hsnd]

theorem norms_nonneg : 0 ≤ (sums a b).2.1 ∧ 0 ≤ (sums a b).2.2 := by
  rw [sums, foldl_sums]
  simp only [zero_add]
  constructor <;>
  · apply sum_nonneg
    simp only [mem_map]
    rintro x ⟨v, -, rfl⟩
    exact mul_self_nonneg _

/-- **Where the three agree**: on vectors of one length that are not zero. -/
theorem cosine_outcomes (a b : List ℝ) :
    (a.length = b.length → (∃ x ∈ a, x ≠ 0) → (∃ y ∈ b, y ≠ 0) → ∃ v, contextCosine a b = .value v ∧
        serviceCosine a b = .value v ∧ repositoryCosine a b = .value v) ∧
    (a.length = b.length → ((∀ x ∈ a, x = 0) ∨ ∀ y ∈ b, y = 0) →
        serviceCosine a b = .value 0 ∧ repositoryCosine a b = .value 0) ∧
    (a.length ≠ b.length → contextCosine a b = .error "Embeddings must have the same dimensions" ∧
          serviceCosine a b = .error "Vectors must have the same dimensions" ∧
          repositoryCosine a b = .value 0) := by
  refine ⟨?_, ?_, ?_⟩
  · rintro hlen ⟨x, hx, hx0⟩ ⟨y, hy, hy0⟩
    obtain ⟨hA, hB⟩ := norms_eq_zero hlen
    have hA0 : (sums a b).2.1 ≠ 0 := fun h => hx0 (hA.mp h x hx)
    have hB0 : (sums a b).2.2 ≠ 0 := fun h => hy0 (hB.mp h y hy)
    have hroots : √(sums a b).2.1 * √(sums a b).2.2 ≠ 0 :=
      mul_ne_zero ((Real.sqrt_ne_zero norms_nonneg.1).mpr hA0)
        ((Real.sqrt_ne_zero norms_nonneg.2).mpr hB0)
    have hquotient : quotient a b = .value ((sums a b).1 / (√(sums a b).2.1 * √(sums a b).2.2)) :=
      if_neg hroots
    have hguarded : guarded a b = quotient a b := if_neg (not_or.mpr ⟨hA0, hB0⟩)
    refine ⟨(sums a b).1 / (√(sums a b).2.1 * √(sums a b).2.2), ?_, ?_, ?_⟩
    · rw [contextCosine, if_neg (not_not.mpr hlen), hquotient]
    · rw [serviceCosine, if_neg (not_not.mpr hlen), hguarded, hquotient]
    · rw [repositoryCosine, if_neg (not_not.mpr hlen), hguarded, hquotient]
  · intro hlen hzero
    have hnorm : (sums a b).2.1 = 0 ∨ (sums a b).2.2 = 0 :=
      hzero.imp (norms_eq_zero hlen).1.mpr (norms_eq_zero hlen).2.mpr
    have hguarded : guarded a b = .value 0 := if_pos hnorm
    simp [serviceCosine, repositoryCosine, hlen, hguarded]
  · intro hlen
    simp [contextCosine, serviceCosine, repositoryCosine, hlen]

theorem cosines_differ :
    contextCosine [1] [1, 0] = .error "Embeddings must have the same dimensions" ∧
    repositoryCosine [1] [1, 0] = .value 0 ∧
    contextCosine [0] [0] = .nan ∧ serviceCosine [0] [0] = .value 0 := by
  simp [contextCosine, repositoryCosine, serviceCosine, guarded, quotient, divide, sums]

end Norms

end Bridge.Contexts.Similarity
