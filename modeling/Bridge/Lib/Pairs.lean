import Mathlib.Algebra.BigOperators.Group.List.Basic
import Mathlib.Tactic.Ring

/-!
# Pairs, and the first of the best

Two patterns of loops over a list. `pairs` is the double loop `i < j`: what is computed for each
pair does not depend on the order of the list if it does not depend on the order of the pair.
`FirstMax` is the first element of the greatest score: a running maximum finds it, and so does a
stable sort. -/

namespace Bridge.Lib

open List

variable {α β : Type}

def pairs : List α → List (α × α)
  | [] => []
  | a :: l => l.map (Prod.mk a) ++ pairs l

theorem forall_mem_pairs {R : α → α → Prop} {l : List α} :
    (∀ p ∈ pairs l, R p.1 p.2) ↔ l.Pairwise R := by
  induction l with
  | nil => simp [pairs]
  | cons a l ih =>
    rw [pairwise_cons, ← ih]
    simp only [pairs, mem_append, mem_map, or_imp, forall_and]
    refine and_congr ⟨fun h b hb => h (a, b) ⟨b, hb, rfl⟩, ?_⟩ Iff.rfl
    rintro h p ⟨b, hb, rfl⟩
    exact h b hb

theorem perm_map_pairs {f : α × α → β} (hf : ∀ a b, f (a, b) = f (b, a)) {l l' : List α}
    (h : l.Perm l') : ((pairs l).map f).Perm ((pairs l').map f) := by
  induction h with
  | nil => exact .refl _
  | cons a h ih =>
    simp only [pairs, map_append, map_map]
    exact (h.map _).append ih
  | swap a b l =>
    simp only [pairs, map_append, map_map, map_cons, cons_append]
    rw [hf]
    refine List.Perm.cons _ ?_
    rw [← append_assoc, ← append_assoc]
    exact perm_append_comm.append_right _
  | trans _ _ ih ih' => exact ih.trans ih'

/-! ## The first of the best -/

section FirstMax

variable [LinearOrder β] {score : α → β} {l : List α} {a b : α}

def FirstMax (score : α → β) (l : List α) (a : α) : Prop :=
  ∃ before after, l = before ++ a :: after ∧ (∀ b ∈ before, score b < score a) ∧
    ∀ b ∈ after, score b ≤ score a

theorem FirstMax.cons_of_le (h : ∀ b ∈ l, score b ≤ score a) : FirstMax score (a :: l) a :=
  ⟨[], l, rfl, by simp, h⟩

theorem FirstMax.cons_of_lt (h : FirstMax score l a) (hlt : score b < score a) :
    FirstMax score (b :: l) a := by
  obtain ⟨before, after, rfl, hbefore, hafter⟩ := h
  refine ⟨b :: before, after, rfl, ?_, hafter⟩
  intro x hx
  obtain rfl | hx := mem_cons.mp hx
  · exact hlt
  · exact hbefore x hx

theorem FirstMax.le (h : FirstMax score l a) (hb : b ∈ l) : score b ≤ score a := by
  obtain ⟨before, after, rfl, hbefore, hafter⟩ := h
  obtain hb | hb := mem_append.mp hb
  · exact (hbefore b hb).le
  · obtain rfl | hb := mem_cons.mp hb
    · exact le_refl _
    · exact hafter b hb

theorem FirstMax.mem (h : FirstMax score l a) : a ∈ l := by
  obtain ⟨before, after, rfl, -, -⟩ := h
  simp

theorem FirstMax.of_cons (h : FirstMax score (b :: l) a) :
    (a = b ∧ ∀ x ∈ l, score x ≤ score b) ∨ FirstMax score l a ∧ score b < score a := by
  obtain ⟨before, after, hl, hbefore, hafter⟩ := h
  cases before with
  | nil =>
    cases hl
    exact .inl ⟨rfl, hafter⟩
  | cons x before =>
    cases hl
    refine .inr ⟨⟨before, after, rfl, ?_, hafter⟩, hbefore b (by simp)⟩
    intro x hx
    exact hbefore x (mem_cons_of_mem _ hx)

theorem FirstMax.unique (ha : FirstMax score l a) (hb : FirstMax score l b) : a = b := by
  induction l with
  | nil => cases ha.mem
  | cons x l ih =>
    obtain ⟨rfl, hle⟩ | ⟨hal, hlt⟩ := ha.of_cons
    · obtain ⟨rfl, -⟩ | ⟨hbl, hlt⟩ := hb.of_cons
      · rfl
      · exact absurd (hle b hbl.mem) (not_le.mpr hlt)
    · obtain ⟨rfl, hle⟩ | ⟨hbl, -⟩ := hb.of_cons
      · exact absurd (hle a hal.mem) (not_le.mpr hlt)
      · exact ih hal hbl

theorem FirstMax.of_append {l₁ l₂ : List α} (h : FirstMax score (l₁ ++ b :: l₂) a) :
    a ∈ l₁ ∨ a = b ∨ score b < score a := by
  induction l₁ with
  | nil =>
    obtain ⟨heq, -⟩ | ⟨-, hlt⟩ := h.of_cons
    · exact .inr (.inl heq)
    · exact .inr (.inr hlt)
  | cons x l₁ ih =>
    obtain ⟨rfl, -⟩ | ⟨hrest, -⟩ := h.of_cons
    · exact .inl mem_cons_self
    · obtain hmem | hlater := ih hrest
      · exact .inl (mem_cons_of_mem x hmem)
      · exact .inr hlater

/-- `l.sort((a, b) => score(b) - score(a))` -/
def sortDescending (score : α → β) (l : List α) : List α :=
  l.mergeSort fun a b => decide (score b ≤ score a)

section Sorting

variable (score)

theorem le_trans_decide (a b c : α) (hab : decide (score b ≤ score a) = true)
    (hbc : decide (score c ≤ score b) = true) : decide (score c ≤ score a) = true := by
  rw [decide_eq_true_eq] at hab hbc ⊢
  exact hbc.trans hab

theorem le_total_decide (a b : α) :
    (decide (score b ≤ score a) || decide (score a ≤ score b)) = true := by
  rw [Bool.or_eq_true, decide_eq_true_eq, decide_eq_true_eq]
  exact le_total _ _

theorem perm_sortDescending (l : List α) : (sortDescending score l).Perm l :=
  mergeSort_perm l _

theorem pairwise_sortDescending (l : List α) :
    (sortDescending score l).Pairwise fun a b => score b ≤ score a :=
  (pairwise_mergeSort (le_trans_decide score) (le_total_decide score) l).imp of_decide_eq_true

theorem firstMax_sortDescending (l : List α) {a : α} {rest : List α}
    (h : sortDescending score l = a :: rest) : FirstMax score l a := by
  -- the sort of `x :: l` is that of `l` with `x` put behind all that are better
  induction l generalizing a rest with
  | nil =>
    simp [sortDescending, mergeSort_nil] at h
  | cons x l ih =>
    obtain ⟨l₁, l₂, hsort, htail, hbetter⟩ :=
      mergeSort_cons (le_trans_decide score) (le_total_decide score) x l
    have hsorted := pairwise_sortDescending score (x :: l)
    rw [sortDescending, hsort] at h hsorted
    cases l₁ with
    | nil =>
      obtain ⟨rfl, -⟩ := List.cons.inj h
      refine .cons_of_le fun b hb => ?_
      have hperm := perm_sortDescending score l
      rw [sortDescending, htail] at hperm
      exact (pairwise_cons.mp hsorted).1 b (hperm.mem_iff.mpr hb)
    | cons y l₁ =>
      obtain ⟨rfl, -⟩ := List.cons.inj h
      refine (ih htail).cons_of_lt ?_
      have hnot := hbetter y (by simp)
      simpa using hnot

end Sorting

def keepBetter (score : α → β) (best : α × β) (a : α) : α × β :=
  if best.2 < score a then (a, score a) else best

theorem FirstMax.keepBetter {best : α} (h : FirstMax score l best) :
    ∃ best', Lib.keepBetter score (best, score best) a = (best', score best') ∧
      FirstMax score (l ++ [a]) best' := by
  by_cases hlt : score best < score a
  · refine ⟨a, if_pos hlt, l, [], rfl, fun b hb => ?_, by simp⟩
    exact (h.le hb).trans_lt hlt
  · refine ⟨best, if_neg hlt, ?_⟩
    obtain ⟨before, after, rfl, hbefore, hafter⟩ := h
    refine ⟨before, after ++ [a], by simp, hbefore, fun b hb => ?_⟩
    obtain hb | hb := mem_append.mp hb
    · exact hafter b hb
    · rw [mem_singleton.mp hb]
      exact not_lt.mp hlt

theorem FirstMax.foldl_keepBetter {best : α} (h : FirstMax score l best) (rest : List α) :
    FirstMax score (l ++ rest) (rest.foldl (Lib.keepBetter score) (best, score best)).1 := by
  induction rest generalizing l best with
  | nil => simpa using h
  | cons a rest ih =>
    obtain ⟨best', hturn, hbest'⟩ := h.keepBetter (a := a)
    rw [foldl_cons, hturn]
    simpa using ih hbest'

end FirstMax

end Bridge.Lib
