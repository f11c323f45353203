import Bridge.Orchestration.Validation
import Mathlib.Data.Bool.AllAny

/-!
# The consensus of two answers

`findConsensus` looks for key words in the two answers put together, and sorts each one it finds by
whether both answers have it or one of them. A key word is found by a pattern and looked up by
`includes`, and for all but one the two agree: where *should*, *must* or the like is found, the
aspect is called `recommendations`, and what is looked up is that word.
-/

namespace Bridge.Orchestration

open Lib Utf16 List

/-! ## Aspects -/

def conceptPatterns : List (List Units) :=
  [["function", "method", "class", "variable", "constant"],
    ["performance", "optimization", "efficiency"],
    ["error", "exception", "validation", "check"],
    ["security", "authentication", "authorization"],
    ["test", "testing", "coverage"],
    ["documentation", "comment", "readme"],
    ["architecture", "design", "pattern"],
    ["database", "storage", "cache"],
    ["api", "endpoint", "interface"],
    ["async", "sync", "concurrency", "parallel"]].map (·.map ofString)

def recommendationPattern : List Units :=
  ["recommend", "suggest", "should", "must", "need to", "better to"].map ofString

def recommendations : Units := ofString "recommendations"

def space : UInt16 := 0x20

/-- `Array.from(new Set(l))` -/
def distinct (l : List Units) : List Units := l.reverse.dedup.reverse

def extractKeyAspects (f : Folding) (content1 content2 : Units) : List Units :=
  let combinedContent := content1 ++ space :: content2
  distinct ((conceptPatterns.flatMap fun pattern => (findAll pattern combinedContent).map
    f.lower) ++ if test recommendationPattern combinedContent then [recommendations] else [])

def relatedTerms : List (Units × List Units) :=
  [("function", ["method", "procedure", "routine"]),
    ("error", ["exception", "mistake", "issue", "problem"]),
    ("performance", ["speed", "efficiency", "optimization"]),
    ("security", ["safety", "protection", "secure"]),
    ("test", ["testing", "spec", "unit test", "integration test"])].map
    fun (term, related) => (ofString term, related.map ofString)

def containsAspect (f : Folding) (content aspect : Units) : Bool :=
  let lowerContent := f.lower content
  let lowerAspect := f.lower aspect
  includes lowerContent lowerAspect ||
    (relatedTerms.lookup lowerAspect).any (·.any (includes lowerContent))

/-! ## The consensus -/

inductive Side
  | claude
  | gemini

def onlyIn : Side → Units
  | .claude => ofString " (only in Claude)"
  | .gemini => ofString " (only in Gemini)"

structure Consensus where
  agreements : List Units
  disagreements : List Units
  confidence : Rat
  consensusSummary : Units
  agreementRatio : Rat
  claudeConfidence : Rat
  geminiConfidence : Rat

/-- `percent` is `(confidence * 100).toFixed(1)`, and `count` the text of a number. -/
def generateConsensusSummary (percent : Rat → Units) (count : Nat → Units)
    (agreements disagreements : List Units) (confidence : Rat) : Units :=
  let agreed := agreements.length
  let disagreed := disagreements.length
  ofString "Consensus confidence: " ++ percent confidence ++ ofString "%. " ++
    (if agreed > 0 ∧ disagreed = 0 then ofString "Both AIs are in complete agreement."
      else if agreed > disagreed then ofString "Strong consensus with " ++ count agreed ++
        ofString " agreements and " ++ count disagreed ++ ofString " minor differences."
      else if agreed = disagreed then
        ofString "Mixed consensus with equal agreements and disagreements."
      else ofString "Weak consensus with " ++ count disagreed ++
        ofString " disagreements and only " ++ count agreed ++ ofString " agreements.") ++
    (if confidence > 4 / 5 then ofString " High confidence in the combined result."
      else if confidence > 3 / 5 then ofString " Moderate confidence in the combined result."
      else ofString " Low confidence - manual review recommended.")

/-- The aspects that both contents have, and those that one of them has. -/
def agreementsOf (f : Folding) (c g : Units) : List Units :=
  (extractKeyAspects f c g).filter fun a => containsAspect f c a && containsAspect f g a

def disagreementsOf (f : Folding) (c g : Units) : List Units :=
  ((extractKeyAspects f c g).filter fun a => containsAspect f c a ^^ containsAspect f g a).map
    fun a => a ++ onlyIn (if containsAspect f c a then .claude else .gemini)

def findConsensus (f : Folding) (percent : Rat → Units) (count : Nat → Units)
    (claudeContent geminiContent : Units) : Consensus :=
  let agreements := agreementsOf f claudeContent geminiContent
  let disagreements := disagreementsOf f claudeContent geminiContent
  let totalAspects := agreements.length + disagreements.length
  let agreementRatio : Rat := if totalAspects > 0 then agreements.length / totalAspects else 0
  let claudeConfidence := extractConfidence claudeContent
  let geminiConfidence := extractConfidence geminiContent
  let averageConfidence := (claudeConfidence + geminiConfidence) / 2
  let confidence := agreementRatio * (7 / 10) + averageConfidence * (3 / 10)
  ⟨agreements, disagreements, confidence,
    generateConsensusSummary percent count agreements disagreements confidence, agreementRatio,
    claudeConfidence, geminiConfidence⟩

section Confidence

variable (f : Folding) (percent : Rat → Units) (count : Nat → Units) (c g : Units)

theorem agreementRatio_mem : 0 ≤ (findConsensus f percent count c g).agreementRatio ∧
    (findConsensus f percent count c g).agreementRatio ≤ 1 := by
  simp only [findConsensus]
  split_ifs with h
  · have hpos : (0 : Rat) < ((agreementsOf f c g).length + (disagreementsOf f c g).length :
      Nat) := by
      exact_mod_cast h
    refine ⟨div_nonneg (Nat.cast_nonneg _) hpos.le, (div_le_one hpos).mpr ?_⟩
    exact_mod_cast Nat.le_add_right _ _
  · norm_num

/-- **The confidences are fractions iff no stated number is above a hundred.** -/
theorem confidence_mem_iff (f : Folding) (percent : Rat → Units) (count : Nat → Units)
    (c g : Units) : let r := findConsensus f percent count c g
    ((0 ≤ r.claudeConfidence ∧ r.claudeConfidence ≤ 1) ∧
        (0 ≤ r.geminiConfidence ∧ r.geminiConfidence ≤ 1) ∧ 0 ≤ r.confidence ∧ r.confidence ≤ 1) ↔
      ∀ x, statedConfidence c = some x ∨ statedConfidence g = some x → x ≤ 100 := by
  intro r
  have hratio := agreementRatio_mem f percent count c g
  have hclaude : _ ↔ _ := extractConfidence_mem_iff c
  have hgemini : _ ↔ _ := extractConfidence_mem_iff g
  have hconfidence : r.confidence = r.agreementRatio * (7 / 10) +
      (extractConfidence c + extractConfidence g) / 2 * (3 / 10) := by
    simp [r, findConsensus]
  constructor
  · rintro ⟨h1, h2, -⟩ x (hx | hx)
    · exact hclaude.mp h1 x hx
    · exact hgemini.mp h2 x hx
  · intro h
    have h1 := hclaude.mpr fun x hx => h x (.inl hx)
    have h2 := hgemini.mpr fun x hx => h x (.inr hx)
    refine ⟨h1, h2, ?_⟩
    rw [hconfidence]
    constructor <;> linarith [h1.1, h1.2, h2.1, h2.2, hratio.1, hratio.2]

/-- **150 percent are 1.5**, and 250 percent on both sides, with a full agreement, 1.45 in all. -/
theorem confidence_above_one : extractConfidence (ofString "Confidence: 150") = 3 / 2 ∧
    (findConsensus .plain (fun _ => []) (fun _ => []) (ofString "test confidence: 250")
      (ofString "test confidence: 250")).confidence = 29 / 20 := by
  constructor <;> decide +kernel

end Confidence

/-! ## Sorting the aspects -/

section Sorting

variable {f : Folding} {c g a m s : Units} {pattern : List Units}

theorem conceptPatterns_words : ∀ pattern ∈ conceptPatterns, ∀ w ∈ pattern,
    (w ≠ [] ∧ space ∉ w) ∧ ∀ u ∈ w, u.toNat < 0x80 := by
  simp only [← all_iff_forall_prop (p := fun u : UInt16 => u.toNat < 0x80)]
  decide +kernel

section Concepts

variable (hp : pattern ∈ conceptPatterns)
include hp

/-- A key word is found in the one content or in the other: no word has a space in it. -/
theorem findAll_combined :
    findAll pattern (c ++ space :: g) = findAll pattern c ++ findAll pattern g :=
  findAllFrom_append (by decide) (fun w hw => (conceptPatterns_words pattern hp w hw).1)
    (Nat.zero_le _)

theorem ascii_of_found (hm : m ∈ findAll pattern s) : ∀ u ∈ m, u.toNat < 0x80 := by
  intro u hu
  apply lt_of_lowerUnit
  exact (conceptPatterns_words pattern hp _ (mem_findAllFrom hm).2).2 _ (mem_map_of_mem hu)

theorem containsAspect_of_found (hm : m ∈ findAll pattern c) :
    containsAspect f c (f.lower m) = true := by
  have hascii := ascii_of_found hp hm
  have hlower : f.lower m = m.map lowerUnit := f.ascii m hascii
  have htwice : f.lower (f.lower m) = m.map lowerUnit := by
    have hword := (conceptPatterns_words pattern hp _ (mem_findAllFrom hm).2).2
    rw [hlower, f.ascii _ hword, map_map]
    exact map_congr_left fun u _ => lowerUnit_lowerUnit u
  have hincludes : includes (f.lower c) (f.lower (f.lower m)) = true := by
    rw [htwice]
    exact decide_eq_true (f.keeps (mem_findAllFrom hm).1 hascii)
  simp [containsAspect, hincludes, Bool.true_or]

end Concepts

theorem mem_extractKeyAspects : a ∈ extractKeyAspects f c g ↔
    (∃ pattern ∈ conceptPatterns, ∃ m, (m ∈ findAll pattern c ∨ m ∈ findAll pattern g) ∧
    f.lower m = a) ∨ test recommendationPattern (c ++ space :: g) = true ∧ a = recommendations := by
  have hconcept : (∃ pattern ∈ conceptPatterns, a ∈ (findAll pattern (c ++ space :: g)).map
    f.lower) ↔ ∃ pattern ∈ conceptPatterns, ∃ m, (m ∈ findAll pattern c ∨ m ∈ findAll pattern g) ∧
      f.lower m = a := by
    refine exists_congr fun pattern => and_congr_right fun hp => ?_
    rw [findAll_combined hp]
    simp only [mem_map, mem_append]
  rw [← hconcept, extractKeyAspects, distinct, mem_reverse, mem_dedup, mem_reverse,
    mem_append, mem_flatMap]
  split <;> simp_all

theorem containsAspect_recommendations :
    containsAspect f c recommendations = includes (f.lower c) recommendations := by
  have hlower : f.lower recommendations = recommendations :=
    (f.ascii _ (all_iff_forall_prop.mp (by decide +kernel))).trans (by decide +kernel)
  have hnone : relatedTerms.lookup recommendations = none := by decide +kernel
  simp [containsAspect, hlower, hnone]

/-- A content that has the word `recommendations` is one in which a recommendation is found. -/
theorem test_of_contains (h : containsAspect f s recommendations = true) (hs : s <:+: m) :
    test recommendationPattern m = true := by
  rw [containsAspect_recommendations] at h
  have hstem : ofString "recommend" <:+: f.lower s :=
    (show ofString "recommend" <:+: recommendations by decide +kernel).trans (of_decide_eq_true h)
  obtain ⟨m', hm', hword⟩ := f.reflects (all_iff_forall_prop.mp (by decide +kernel)) hstem
  have hne : m' ≠ [] := by
    rintro rfl
    exact absurd hword (by decide +kernel)
  have hfound : findAll recommendationPattern m ≠ [] :=
    findAll_ne_nil (hm'.trans hs) hne (hword ▸ by decide +kernel)
  simp [test, hfound]

/-- The aspects that one of the contents has do not depend on which content comes first. -/
theorem mem_swap (h : a ∈ extractKeyAspects f c g)
    (hhas : containsAspect f c a = true ∨ containsAspect f g a = true) :
    a ∈ extractKeyAspects f g c := by
  rw [mem_extractKeyAspects] at h ⊢
  rcases h with ⟨pattern, hp, m, hm, hlower⟩ | ⟨-, rfl⟩
  · exact .inl ⟨pattern, hp, m, hm.symm, hlower⟩
  · refine .inr ⟨?_, rfl⟩
    rcases hhas with hhas | hhas
    · exact test_of_contains hhas ((suffix_cons _ _).trans (suffix_append _ _)).isInfix
    · exact test_of_contains hhas (prefix_append _ _).isInfix

theorem perm_filter_swap (p : Units → Bool)
    (hp : ∀ a, p a = true → containsAspect f c a = true ∨ containsAspect f g a = true) :
    ((extractKeyAspects f c g).filter p).Perm ((extractKeyAspects f g c).filter p) := by
  have hnodup : ∀ c g, (extractKeyAspects f c g).Nodup := fun c g =>
    nodup_reverse.mpr (nodup_dedup _)
  apply (perm_ext_iff_of_nodup ((hnodup c g).filter p) ((hnodup g c).filter p)).mpr
  intro a
  simp only [mem_filter]
  exact ⟨fun h => ⟨mem_swap h.1 (hp a h.2), h.2⟩, fun h => ⟨mem_swap h.1 (hp a h.2).symm, h.2⟩⟩

theorem perm_agreements_swap : (agreementsOf f c g).Perm (agreementsOf f g c) := by
  refine (perm_filter_swap _ fun a ha => .inl (Bool.and_eq_true_iff.mp ha).1).trans (.of_eq ?_)
  simp [agreementsOf, Bool.and_comm]

theorem length_disagreements_swap : (disagreementsOf f c g).length =
    (disagreementsOf f g c).length := by
  simp only [disagreementsOf, length_map, Bool.xor_comm (containsAspect f g _)]
  apply (perm_filter_swap _ _).length_eq
  intro a ha
  cases hc : containsAspect f c a <;> simp_all

theorem mem_disagreements : (∃ side, a ++ onlyIn side ∈ disagreementsOf f c g) ↔
    a ∈ extractKeyAspects f c g ∧ (containsAspect f c a ^^ containsAspect f g a) = true := by
  have hlength : ∀ side side', (onlyIn side).length = (onlyIn side').length := by
    intro side side'
    cases side <;> cases side' <;> decide +kernel
  simp only [disagreementsOf, mem_map, mem_filter]
  constructor
  · rintro ⟨side, b, hb, heq⟩
    obtain ⟨rfl, -⟩ := append_inj' heq (hlength _ _)
    exact hb
  · exact fun h => ⟨_, a, h, rfl⟩

/-- **Every aspect is sorted**, whichever content comes first, but for `recommendation`. -/
theorem consensus_sorts_iff (f : Folding) (percent : Rat → Units) (count : Nat → Units)
    (c g : Units) : let r := findConsensus f percent count c g
    let r' := findConsensus f percent count g c
    ((∀ a ∈ extractKeyAspects f c g,
        Xor (a ∈ r.agreements) (∃ side, a ++ onlyIn side ∈ r.disagreements)) ∧
      (∀ a, a ∈ r.agreements ↔ a ∈ r'.agreements) ∧ r.agreementRatio = r'.agreementRatio) ↔
      (test recommendationPattern (c ++ space :: g) = true →
        includes (f.lower c) recommendations = true ∨ includes (f.lower g) recommendations =
          true) := by
  intro r r'
  have hperm : r.agreements.Perm r'.agreements := perm_agreements_swap
  have hlength : (agreementsOf f c g).length = (agreementsOf f g c).length := hperm.length_eq
  have hratio : r.agreementRatio = r'.agreementRatio := by
    simp only [r, r', findConsensus]
    rw [hlength, length_disagreements_swap]
  have hxor : ∀ a ∈ extractKeyAspects f c g,
      (Xor (a ∈ r.agreements) (∃ side, a ++ onlyIn side ∈ r.disagreements) ↔
        containsAspect f c a = true ∨ containsAspect f g a = true) := by
    intro a ha
    have hagree : a ∈ r.agreements ↔ containsAspect f c a = true ∧ containsAspect f g a = true := by
      simp [r, findConsensus, agreementsOf, ha]
    have hdisagree : (∃ side, a ++ onlyIn side ∈ r.disagreements) ↔ _ := mem_disagreements
    rw [hagree, hdisagree]
    cases hc : containsAspect f c a <;> cases hg : containsAspect f g a <;> simp [ha, Xor]
  rw [← containsAspect_recommendations, ← containsAspect_recommendations]
  constructor
  · rintro ⟨hsorted, -⟩ htest
    have hmem : recommendations ∈ extractKeyAspects f c g :=
  mem_extractKeyAspects.mpr (.inr ⟨htest, rfl⟩)
    exact (hxor _ hmem).mp (hsorted _ hmem)
  · refine fun h => ⟨fun a ha => (hxor a ha).mpr ?_, fun a => hperm.mem_iff, hratio⟩
    rcases mem_extractKeyAspects.mp ha with ⟨pattern, hp, m, hm, rfl⟩ | ⟨htest, rfl⟩
    · exact hm.imp (containsAspect_of_found hp) (containsAspect_of_found hp)
    · exact h htest

/-- **An aspect that is in neither list**: a recommendation that does not say so. -/
theorem recommendation_unsorted :
    extractKeyAspects .plain (ofString "you should") [] = [recommendations] ∧
    agreementsOf .plain (ofString "you should") [] = [] ∧
    disagreementsOf .plain (ofString "you should") [] = [] := by
  refine ⟨?_, ?_, ?_⟩ <;> decide +kernel

end Sorting

end Bridge.Orchestration
