import Bridge.Lib.Pairs

/-!
# A list that is sorted again and again

Elements come and go, and after each that comes the whole list is sorted by its score, the best
first. What a stable sort does is settled by two things: the order of the scores, and the order
among elements of one score (`eq_of_sameScores`). So sorting before does not matter to sorting
after, and neither does it matter whether elements are taken out before or after
(`sortDescending_concat`, `filter_sortDescending`).
-/

namespace Bridge.Lib

open List

section StableSort

variable {α β : Type} [LinearOrder β] {score : α → β} {l l₁ l₂ : List α}

def SameScores (score : α → β) (l₁ l₂ : List α) : Prop :=
  ∀ v, l₁.filter (fun a => decide (score a = v)) = l₂.filter fun a => decide (score a = v)

section SameScores

variable (h : SameScores score l₁ l₂)
include h

theorem SameScores.symm : SameScores score l₂ l₁ := fun v => (h v).symm

theorem SameScores.trans {l₃ : List α} (h' : SameScores score l₂ l₃) :
    SameScores score l₁ l₃ := fun v => (h v).trans (h' v)

theorem SameScores.mem {a : α} (ha : a ∈ l₁) : a ∈ l₂ := by
  have hmem : a ∈ l₁.filter fun b => decide (score b = score a) :=
    mem_filter.mpr ⟨ha, decide_eq_true rfl⟩
  rw [h (score a)] at hmem
  exact mem_of_mem_filter hmem

theorem SameScores.append {l₁' l₂' : List α} (h' : SameScores score l₁' l₂') :
    SameScores score (l₁ ++ l₁') (l₂ ++ l₂') := by
  intro v
  rw [filter_append, filter_append, h, h']

theorem SameScores.filter (p : α → Bool) : SameScores score (l₁.filter p) (l₂.filter p) := by
  intro v
  rw [filter_comm, h, filter_comm]

end SameScores

theorem SameScores.of_cons {a : α} (h : SameScores score (a :: l₁) (a :: l₂)) :
    SameScores score l₁ l₂ := by
  intro v
  have hv := h v
  by_cases ha : score a = v
  · simp only [filter_cons, ha, decide_true, if_true] at hv
    exact (cons.inj hv).2
  · simpa only [filter_cons, ha, decide_false, Bool.false_eq_true, if_false] using hv

/-- **Two sorted lists that agree on each score are one.** -/
theorem eq_of_sameScores (h : SameScores score l₁ l₂)
    (h₁ : l₁.Pairwise fun a b => score b ≤ score a)
    (h₂ : l₂.Pairwise fun a b => score b ≤ score a) : l₁ = l₂ := by
  induction l₁ generalizing l₂ with
  | nil =>
    cases l₂ with
    | nil => rfl
    | cons b l₂ => exact absurd (h.symm.mem mem_cons_self) not_mem_nil
  | cons a l₁ ih =>
    cases l₂ with
    | nil => exact absurd (h.mem mem_cons_self) not_mem_nil
    | cons b l₂ =>
      -- each head is one of the best of the other list
      have hba : score b ≤ score a := by
        obtain rfl | hb := mem_cons.mp (h.symm.mem mem_cons_self)
        · exact le_refl _
        · exact (pairwise_cons.mp h₁).1 b hb
      have hab : score a ≤ score b := by
        obtain rfl | ha := mem_cons.mp (h.mem mem_cons_self)
        · exact le_refl _
        · exact (pairwise_cons.mp h₂).1 a ha
      have hscore : score b = score a := le_antisymm hba hab
      have hheads := h (score a)
      simp only [filter_cons, hscore, decide_true, if_true] at hheads
      obtain ⟨rfl, -⟩ := cons.inj hheads
      rw [ih h.of_cons (pairwise_cons.mp h₁).2 (pairwise_cons.mp h₂).2]

theorem sameScores_sortDescending (score : α → β) (l : List α) :
    SameScores score (sortDescending score l) l := by
  intro v
  let q : α → Bool := fun a => decide (score a = v)
  have hpair : (l.filter q).Pairwise fun a b => decide (score b ≤ score a) = true := by
    refine List.Pairwise.imp_of_mem ?_ (pairwise_of_forall fun _ _ => trivial)
    intro a b ha hb _
    have ha' : score a = v := of_decide_eq_true (mem_filter.mp ha).2
    have hb' : score b = v := of_decide_eq_true (mem_filter.mp hb).2
    rw [ha', hb']
    exact decide_eq_true (le_refl v)
  have hsub : (l.filter q).Sublist ((sortDescending score l).filter q) := by
    have hsorted := sublist_mergeSort (le_trans_decide score) (le_total_decide score) hpair
      filter_sublist
    have hself : (l.filter q).filter q = l.filter q := by simp
    rw [← hself]
    exact hsorted.filter q
  exact (hsub.eq_of_length ((perm_sortDescending score l).filter q).length_eq.symm).symm

variable {r : α → α → Prop}

/-- The sort is stable: what holds along the list still holds among elements of one score. -/
theorem pairwise_sortDescending_of_pairwise (h : l.Pairwise r) :
    (sortDescending score l).Pairwise fun a b => score b < score a ∨ score a = score b ∧ r a b := by
  rw [pairwise_iff_forall_sublist] at h ⊢
  intro a b hsub
  have hle : score b ≤ score a :=
    pairwise_iff_forall_sublist.mp (pairwise_sortDescending score l) hsub
  refine hle.lt_or_eq.imp_right fun heq => ⟨heq.symm, h ?_⟩
  have hkept := hsub.filter fun x => decide (score x = score a)
  rw [sameScores_sortDescending score l (score a)] at hkept
  simpa [heq] using hkept.trans filter_sublist

theorem mem_take_iff_of_pairwise [DecidableRel r] (hasymm : ∀ a b, r a b → ¬ r b a)
    (h : l.Pairwise r) {a : α} {k : Nat} :
    a ∈ l.take k ↔ a ∈ l ∧ l.countP (fun b => decide (r b a)) < k := by
  induction l generalizing k with
  | nil => simp
  | cons b l ih =>
    obtain ⟨hb, hl⟩ := pairwise_cons.mp h
    cases k with
    | zero => simp
    | succ k =>
      rw [take_succ_cons, mem_cons, mem_cons, ih hl, countP_cons]
      by_cases hab : a = b
      · have hfirst : l.countP (fun c => decide (r c a)) = 0 := by
          refine countP_eq_zero.mpr fun c hc => ?_
          simpa using hab ▸ hasymm _ _ (hb c hc)
        have hself : ¬ r b a := fun hr => hasymm _ _ hr (hab ▸ hr)
        simp [hab, hab ▸ hfirst, hab ▸ hself]
      · by_cases hmem : a ∈ l
        · simp [hab, hmem, hb a hmem]
        · simp [hab, hmem]

/-- **What is among the first `k`**: fewer than `k` elements come before it. -/
theorem mem_take_sortDescending [DecidableRel r] (hasymm : ∀ a b, r a b → ¬ r b a)
    (h : l.Pairwise r) {a : α} {k : Nat} : a ∈ (sortDescending score l).take k ↔ a ∈ l ∧
      l.countP (fun b => decide (score a < score b ∨ score b = score a ∧ r b a)) < k := by
  have hasymm' : ∀ b c, (score c < score b ∨ score b = score c ∧ r b c) →
      ¬ (score b < score c ∨ score c = score b ∧ r c b) := by
    rintro b c (hlt | ⟨heq, hr⟩) (hlt' | ⟨heq', hr'⟩)
    · exact lt_asymm hlt hlt'
    · exact hlt.ne heq'
    · exact hlt'.ne heq
    · exact hasymm _ _ hr hr'
  rw [mem_take_iff_of_pairwise hasymm' (pairwise_sortDescending_of_pairwise h),
    (perm_sortDescending score l).mem_iff, (perm_sortDescending score l).countP_eq]

theorem sortDescending_of_sameScores (h : SameScores score l₁ l₂) :
    sortDescending score l₁ = sortDescending score l₂ :=
  eq_of_sameScores
    ((sameScores_sortDescending score l₁).trans (h.trans (sameScores_sortDescending score l₂).symm))
    (pairwise_sortDescending score l₁) (pairwise_sortDescending score l₂)

theorem sortDescending_concat (score : α → β) (l : List α) (a : α) :
    sortDescending score (sortDescending score l ++ [a]) = sortDescending score (l ++ [a]) :=
  sortDescending_of_sameScores ((sameScores_sortDescending score l).append fun _ => rfl)

theorem filter_sortDescending (score : α → β) (l : List α) (p : α → Bool) :
    (sortDescending score l).filter p = sortDescending score (l.filter p) :=
  eq_of_sameScores
    (((sameScores_sortDescending score l).filter p).trans (sameScores_sortDescending score _).symm)
    ((pairwise_sortDescending score l).filter p) (pairwise_sortDescending score _)

theorem find_sortDescending (score : α → β) (l : List α) (p : α → Bool) :
    (∃ a, (sortDescending score l).find? p = some a ∧ FirstMax score (l.filter p) a) ∨
      (sortDescending score l).find? p = none ∧ ∀ a ∈ l, p a = false := by
  rw [← head?_filter, filter_sortDescending]
  cases hsorted : sortDescending score (l.filter p) with
  | nil =>
    refine .inr ⟨rfl, fun a ha => ?_⟩
    have hperm := perm_sortDescending score (l.filter p)
    rw [hsorted] at hperm
    simpa using filter_eq_nil_iff.mp hperm.symm.eq_nil a ha
  | cons a rest => exact .inl ⟨a, rfl, firstMax_sortDescending score _ hsorted⟩

end StableSort

end Bridge.Lib
