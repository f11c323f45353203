import Bridge.Compression.Acceptance
import Bridge.Lib.Pieces
import Bridge.Lib.StableSort

/-!
# Extractive summaries

A summary is made of the best sentences of a text, as many as fit. Each sentence is known by its
place, since the text may have it twice.
-/

namespace Bridge.Compression

open Lib Utf16 List

/-- A sentence, with its place among the sentences of the text. -/
abbrev Placed := Text × Nat

def joined (chosen : List Placed) : Text :=
  (ofString ". ").intercalate (chosen.map fun e => trim e.1)

/-- The body of the loop. -/
def appendSentence (maxLength : Rat) (summary : Text) (e : Placed) : Text :=
  if (summary.length + (trim e.1).length + 2 : Rat) ≤ maxLength then
    summary ++ (if summary = [] then [] else ofString ". ") ++ trim e.1
  else summary

section Loop

variable {chosen items : List Placed} {e : Placed}

theorem joined_eq_nil (h : ∀ e ∈ chosen, trim e.1 ≠ []) : joined chosen = [] ↔ chosen = [] := by
  refine ⟨fun hnil => eq_nil_iff_forall_not_mem.mpr fun e he => h e he ?_,
    fun hnil => by rw [hnil]; rfl⟩
  have hpart : trim e.1 <:+: joined chosen := infix_intercalate (mem_map_of_mem he)
  exact infix_nil.mp (hnil ▸ hpart)

theorem joined_concat (h : ∀ e ∈ chosen, trim e.1 ≠ []) : joined (chosen ++ [e]) =
    joined chosen ++ (if joined chosen = [] then [] else ofString ". ") ++ trim e.1 := by
  simp only [joined_eq_nil h]
  split_ifs with hnil
  · simp [hnil, joined]
  · rw [joined, map_append, map_singleton, intercalate_concat (by simpa using hnil)]
    rfl

/-- The sentences that the loop has chosen from `items`. -/
theorem foldl_appendSentence (maxLength : Rat) (hitems : ∀ e ∈ items, trim e.1 ≠ []) :
    ∃ chosen, chosen.Sublist items ∧ items.foldl (appendSentence maxLength) [] = joined chosen ∧
      (chosen ≠ [] → ((joined chosen).length : Rat) ≤ maxLength) ∧
      ∀ e ∈ items, e ∉ chosen → maxLength < (joined chosen).length + (trim e.1).length + 2 := by
  induction items using reverseRecOn with
  | nil => exact ⟨[], .slnil, rfl, fun h => absurd rfl h, by simp⟩
  | append_singleton items e ih =>
    obtain ⟨hbefore, -⟩ := forall_mem_append.mp hitems
    obtain ⟨chosen, hsub, hfold, hbound, hleft⟩ := ih hbefore
    rw [foldl_concat, hfold, appendSentence]
    by_cases hfit : ((joined chosen).length + (trim e.1).length + 2 : Rat) ≤ maxLength
    · rw [if_pos hfit]
      have hconcat := joined_concat (e := e) fun e he => hbefore e (hsub.subset he)
      -- the summary gets longer, so what did not fit before does not fit now
      have hlength : ((joined chosen).length : Rat) ≤ (joined (chosen ++ [e])).length ∧
          ((joined (chosen ++ [e])).length : Rat) ≤ (joined chosen).length + (trim e.1).length +
            2 := by
        have hsep : (if joined chosen = [] then [] else ofString ". ").length ≤ 2 := by
          split_ifs <;> decide
        norm_cast
        simp only [hconcat, length_append]
        omega
      refine ⟨chosen ++ [e], hsub.append (.refl _), hconcat.symm, fun _ => hlength.2.trans hfit, ?_⟩
      intro e' he' hnot
      simp only [mem_append, mem_singleton, not_or] at he' hnot
      linarith [hleft e' (he'.resolve_right hnot.2) hnot.1]
    · rw [if_neg hfit]
      refine ⟨chosen, hsub.trans (sublist_append_left ..), rfl, hbound, forall_mem_append.mpr
        ⟨hleft, ?_⟩⟩
      exact forall_mem_singleton.mpr fun _ => not_le.mp hfit

end Loop

variable (d : Details) (config : CompressionConfig) (data : Text) (maxLength : Rat)

def ranked : List Placed := sortDescending (fun e => d.scoreSentence config e.1)
    (sentences data).zipIdx

theorem extractiveSummary_eq : extractiveSummary d config data maxLength =
    let summary := (ranked d config data).foldl (appendSentence maxLength) []
    if summary = [] then substring data maxLength else summary := by
  let item (s : Text) : Text × Rat := (trim s, d.scoreSentence config s)
  have hsorted : (ranked d config data).map (fun e => item e.1) =
      ((sentences data).map item).mergeSort fun a b => decide (b.2 ≤ a.2) := by
    rw [← zipIdx_map_fst 0 (sentences data), map_map]
    exact map_mergeSort fun _ _ _ _ => rfl
  unfold extractiveSummary
  by_cases hnone : sentences data = []
  · simp [ranked, hnone, sortDescending]
  · rw [if_neg hnone]
    dsimp only
    rw [← hsorted, foldl_map]
    rfl

/-- The first sentence has the higher score, or stands first in the text. -/
def Precedes (a b : Placed) : Prop :=
  d.scoreSentence config b.1 < d.scoreSentence config a.1 ∨
    d.scoreSentence config a.1 = d.scoreSentence config b.1 ∧ a.2 < b.2

theorem pairwise_ranked : (ranked d config data).Pairwise (Precedes d config) := by
  have hplaces : ((sentences data).zipIdx.map Prod.snd).Pairwise (· < ·) := by
    rw [zipIdx_map_snd]
    exact pairwise_lt_range'
  exact pairwise_sortDescending_of_pairwise (pairwise_map.mp hplaces)

/-- It is a prefix of the text, or sentences in the order of their scores, and no other one fits. -/
def IsSummary (summary : Text) : Prop :=
  (summary.length : Rat) ≤ maxLength ∧
    (summary <+: data ∧ (∀ s ∈ sentences data, maxLength < (trim s).length + 2) ∨
      ∃ chosen : List Placed, chosen ≠ [] ∧ (∀ e ∈ chosen, e ∈ (sentences data).zipIdx) ∧
        chosen.Pairwise (Precedes d config) ∧ summary = joined chosen ∧
        ∀ e ∈ (sentences data).zipIdx, e ∉ chosen → maxLength < summary.length + 2 +
          (trim e.1).length)

theorem extractiveSummary_spec (h : 1 ≤ maxLength) :
    IsSummary d config data maxLength (extractiveSummary d config data maxLength) := by
  have hperm : (ranked d config data).Perm (sentences data).zipIdx := perm_sortDescending _ _
  have hlong : ∀ e ∈ ranked d config data, trim e.1 ≠ [] := by
    intro e he hnil
    have hmem : e.1 ∈ sentences data := fst_mem_of_mem_zipIdx (hperm.mem_iff.mp he)
    have hlength := (mem_filter.mp hmem).2
    simp [hnil] at hlength
  obtain ⟨chosen, hsub, hfold, hbound, hleft⟩ := foldl_appendSentence maxLength hlong
  have hsummary : extractiveSummary d config data maxLength =
      if chosen = [] then substring data maxLength else joined chosen := by
    rw [extractiveSummary_eq, hfold]
    simp only [joined_eq_nil fun e he => hlong e (hsub.subset he)]
  rw [hsummary, IsSummary]
  split_ifs with hnone
  · rw [hnone] at hleft
    constructor
    · have hfloor : ((⌊maxLength⌋.toNat : Nat) : Rat) ≤ maxLength := by
        rw [Int.floor_toNat]
        exact Nat.floor_le (by linarith)
      refine le_trans ?_ hfloor
      exact_mod_cast length_take_le _ _
    · refine .inl ⟨List.take_prefix _ _, fun s hs => ?_⟩
      obtain ⟨i, hi⟩ := mem_iff_getElem?.mp hs
      have hfits := hleft (s, i) (hperm.mem_iff.mpr (mem_zipIdx_iff_getElem?.mpr hi)) not_mem_nil
      simpa [joined] using hfits
  · refine ⟨hbound hnone, .inr ⟨chosen, hnone, ?_, (pairwise_ranked ..).sublist hsub, rfl,
      fun e he hnot => ?_⟩⟩
    · exact fun e he => hperm.mem_iff.mp (hsub.subset he)
    · have hfits := hleft e (hperm.mem_iff.mpr he) hnot
      linarith

theorem extractiveSummary_sample : (1 : Rat) ≤ 20 ∧
      ((extractiveSummary plainDetails { type := .summary } (ofString "One short line. Two.")
        20).length : Rat) ≤ 20 :=
  ⟨by norm_num, (extractiveSummary_spec _ _ _ 20 (by norm_num)).1⟩

end Bridge.Compression
