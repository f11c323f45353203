import Bridge.Results.Merger

/-!
# Consensus, and the order of the results

A consensus is looked for among the elements of the *first* result: one of them must be similar to
some element of each. So what is reported depends on the order only through which result comes
first, and it does not depend on it if one result has such an element exactly if another has
(`consensus_order`). -/

namespace Bridge.Results

open Lib Utf16 Domain List

section Similarity

variable {f : Format}

theorem areSimilar_comm (str1 str2 : Units) : areSimilar f str1 str2 = areSimilar f str2 str1 := by
  simp [areSimilar, Finset.inter_comm, min_comm]

theorem areSimilar_self (str : Units) : areSimilar f str str = true := by
  have hpos : 0 < (words f.lowerCase str).card := (words_nonempty f.lowerCase str).card_pos
  have hone : ((words f.lowerCase str).card : Rat) / (words f.lowerCase str).card = 1 :=
    div_self (Nat.cast_ne_zero.mpr hpos.ne')
  simp only [areSimilar, Finset.inter_self, min_self, hone, decide_eq_true_eq]
  norm_num

end Similarity

section Order

variable (f : Format)

/-- An element of a result is similar to one of each of the results. -/
def Shared (results : List ResultRef) (r : ResultRef) : Prop :=
  ∃ element ∈ extractKeyElements r.result.output, ∀ r' ∈ results,
    ∃ e ∈ extractKeyElements r'.result.output, areSimilar f e element = true

/-- In whatever order the results come, the consensus is reported the same. -/
def OrderFree (results : List ResultRef) : Prop :=
  ∀ first rest first' rest', (first :: rest).Perm results → (first' :: rest').Perm results →
    (mergeByConsensus f first (first :: rest)).consensus =
      (mergeByConsensus f first' (first' :: rest')).consensus

variable {f} {results results' : List ResultRef} {r r' first : ResultRef} {rest : List ResultRef}

theorem shared_perm (h : results.Perm results') : Shared f results r ↔ Shared f results' r := by
  unfold Shared
  simp [h.mem_iff]

theorem consensus_eq_true : (mergeByConsensus f first (first :: rest)).consensus = some true ↔
    Shared f (first :: rest) first := by
  simp only [mergeByConsensus, Option.some.injEq, decide_eq_true_eq, length_pos_iff_exists_mem,
    findCommonElements, map_cons, headD_cons, mem_filter, Shared]
  refine exists_congr fun element => and_congr_right fun _ => ?_
  rw [← map_cons (f := fun r : ResultRef => extractKeyElements r.result.output), all_map]
  simp

theorem consensus_isSome (first : ResultRef) (results : List ResultRef) :
    ∃ b, (mergeByConsensus f first results).consensus = some b := ⟨_, rfl⟩

theorem consensus_eq_true_of_perm (h : (first :: rest).Perm results) :
    (mergeByConsensus f first (first :: rest)).consensus = some true ↔ Shared f results first :=
  consensus_eq_true.trans (shared_perm h)

theorem exists_perm_cons (h : r ∈ results) : ∃ rest, (r :: rest).Perm results := by
  obtain ⟨before, behind, rfl⟩ := append_of_mem h
  exact ⟨before ++ behind, perm_middle.symm⟩

theorem orderFree_iff : OrderFree f results ↔ ∀ r ∈ results, ∀ r' ∈ results, Shared f results r →
    Shared f results r' := by
  constructor
  · intro hfree r hr r' hr' hshared
    obtain ⟨rest, hperm⟩ := exists_perm_cons hr
    obtain ⟨rest', hperm'⟩ := exists_perm_cons hr'
    rw [← consensus_eq_true_of_perm hperm', ← hfree r rest r' rest' hperm hperm']
    exact (consensus_eq_true_of_perm hperm).mpr hshared
  · intro hall first rest first' rest' hperm hperm'
    have hfirst : first ∈ results := hperm.subset mem_cons_self
    have hfirst' : first' ∈ results := hperm'.subset mem_cons_self
    have hsame : Shared f results first ↔ Shared f results first' :=
      ⟨hall first hfirst first' hfirst', hall first' hfirst' first hfirst⟩
    rw [← consensus_eq_true_of_perm hperm, ← consensus_eq_true_of_perm hperm'] at hsame
    obtain ⟨b, hb⟩ := consensus_isSome (f := f) first (first :: rest)
    obtain ⟨b', hb'⟩ := consensus_isSome (f := f) first' (first' :: rest')
    rw [hb, hb'] at hsame ⊢
    cases b with
    | false =>
      cases b' with
      | false => rfl
      | true => cases hsame.mpr rfl
    | true => exact (hsame.mp rfl).symm

theorem orderFree_pair (a b : ResultRef) : OrderFree f [a, b] := by
  have hswap : ∀ a b : ResultRef, Shared f [a, b] a → Shared f [a, b] b := by
    intro a b hshared
    obtain ⟨element, helement, hall⟩ := hshared
    obtain ⟨e, he, hsimilar⟩ := hall b (by simp)
    refine ⟨e, he, fun r hr => ?_⟩
    obtain rfl | hr := mem_cons.mp hr
    · exact ⟨element, helement, by rw [areSimilar_comm, hsimilar]⟩
    · obtain rfl := mem_singleton.mp hr
      exact ⟨e, he, areSimilar_self e⟩
  have hback : Shared f [a, b] b → Shared f [a, b] a := by
    intro hshared
    rw [shared_perm (List.Perm.swap b a [])] at hshared ⊢
    exact hswap b a hshared
  rw [orderFree_iff]
  intro r hr r' hr' hshared
  simp only [mem_cons, not_mem_nil, or_false] at hr hr'
  obtain rfl | rfl := hr <;> obtain rfl | rfl := hr'
  · exact hshared
  · exact hswap _ _ hshared
  · exact hback hshared
  · exact hshared

def elementsOf (results : List ResultRef) : List Units :=
  results.flatMap fun r => extractKeyElements r.result.output

theorem orderFree_of_trans
    (htrans : ∀ a ∈ elementsOf results, ∀ b ∈ elementsOf results, ∀ c ∈ elementsOf results,
      areSimilar f a b = true → areSimilar f b c = true → areSimilar f a c = true) :
    OrderFree f results := by
  rw [orderFree_iff]
  intro r hr r' hr' hshared
  obtain ⟨element, helement, hall⟩ := hshared
  obtain ⟨element', helement', hsimilar'⟩ := hall r' hr'
  refine ⟨element', helement', fun r'' hr'' => ?_⟩
  obtain ⟨e, he, hsimilar⟩ := hall r'' hr''
  refine ⟨e, he, ?_⟩
  rw [areSimilar_comm] at hsimilar'
  exact htrans e (mem_flatMap.mpr ⟨r'', hr'', he⟩) element (mem_flatMap.mpr ⟨r, hr, helement⟩)
    element' (mem_flatMap.mpr ⟨r', hr', helement'⟩) hsimilar hsimilar'

end Order

/-- The order does not matter exactly if all the results have an element that all share, or none
has. -/
theorem consensus_order (f : Format) (results : List ResultRef) : (OrderFree f results ↔
      (∀ r ∈ results, Shared f results r) ∨ ∀ r ∈ results, ¬ Shared f results r) ∧
    (results.length = 2 → OrderFree f results) ∧
    ((∀ a ∈ elementsOf results, ∀ b ∈ elementsOf results, ∀ c ∈ elementsOf results,
      areSimilar f a b = true → areSimilar f b c = true → areSimilar f a c = true) →
      OrderFree f results) := by
  refine ⟨?_, ?_, orderFree_of_trans⟩
  · rw [orderFree_iff]
    constructor
    · intro hall
      by_cases hsome : ∃ r ∈ results, Shared f results r
      · obtain ⟨r, hr, hshared⟩ := hsome
        exact .inl fun r' hr' => hall r hr r' hr' hshared
      · exact .inr fun r hr hshared => hsome ⟨r, hr, hshared⟩
    · rintro (hall | hnone) r hr r' hr' hshared
      · exact hall r' hr'
      · exact absurd hshared (hnone r hr)
  · intro hlength
    obtain ⟨a, b, rfl⟩ := length_eq_two.mp hlength
    exact orderFree_pair a b

def middle : ResultRef := resultOf 0 .claude "a b c d e f ."

def left : ResultRef := resultOf 1 .gemini "a b c ."

def right : ResultRef := resultOf 2 .openai "d e f ."

theorem consensus_lost :
    (mergeByConsensus .plain middle [middle, left, right]).consensus = some true ∧
    (mergeByConsensus .plain left [left, middle, right]).consensus = some false := by
  decide +kernel

end Bridge.Results
