import Mathlib.Data.List.Infix
import Mathlib.Data.List.Nodup

/-!
# Pieces of a list

What becomes of pieces when they are joined, of a list when it is split, and of elements that occur
more than once: `eraseDups` keeps the first of each, in the order of these (`FirstOccurrences`).
-/

namespace Bridge.Lib

open List

variable {α : Type}

/-- All the elements of a list, each once, in the order in which they first occur in it. -/
structure FirstOccurrences [BEq α] (all once : List α) : Prop where
  nodup : once.Nodup
  mem : ∀ x, x ∈ once ↔ x ∈ all
  order : once.Pairwise fun x y => all.idxOf x < all.idxOf y

section FirstOccurrences

variable [BEq α] [LawfulBEq α]

theorem idxOf_lt_of_filter {p : α → Bool} {x y : α} {l : List α} (hx : p x = true) (hy : p y = true)
    (h : (l.filter p).idxOf x < (l.filter p).idxOf y) : l.idxOf x < l.idxOf y := by
  induction l with
  | nil => cases h
  | cons z l ih =>
    cases hz : p z with
    | true =>
      rw [filter_cons_of_pos hz] at h
      by_cases hxz : z = x
      · subst hxz
        by_cases hyz : z = y
        · subst hyz
          exact absurd h (Nat.lt_irrefl _)
        · rw [idxOf_cons_self, idxOf_cons_ne _ hyz]
          exact Nat.succ_pos _
      · by_cases hyz : z = y
        · subst hyz
          rw [idxOf_cons_self] at h
          exact absurd h (Nat.not_lt_zero _)
        · rw [idxOf_cons_ne _ hxz, idxOf_cons_ne _ hyz] at h ⊢
          exact Nat.succ_lt_succ (ih (Nat.lt_of_succ_lt_succ h))
    | false =>
      rw [filter_cons_of_neg (by simp [hz])] at h
      have hxz : z ≠ x := fun heq => by simp [heq, hx] at hz
      have hyz : z ≠ y := fun heq => by simp [heq, hy] at hz
      rw [idxOf_cons_ne _ hxz, idxOf_cons_ne _ hyz]
      exact Nat.succ_lt_succ (ih h)

theorem pairwise_idxOf_eraseDups (l : List α) :
    l.eraseDups.Pairwise fun x y => l.idxOf x < l.idxOf y := by
  match l with
  | [] => exact List.Pairwise.nil
  | z :: l =>
    rw [eraseDups_cons, pairwise_cons]
    have hne : ∀ {x : α}, x ∈ (l.filter fun b => !b == z).eraseDups → z ≠ x := by
      intro x hx heq
      have hmem := (mem_filter.mp (mem_eraseDups.mp hx)).2
      simp [heq] at hmem
    constructor
    · intro x hx
      rw [idxOf_cons_self, idxOf_cons_ne _ (hne hx)]
      exact Nat.succ_pos _
    · refine (pairwise_idxOf_eraseDups (l.filter fun b => !b == z)).imp_of_mem ?_
      intro x y hx hy hlt
      rw [idxOf_cons_ne _ (hne hx), idxOf_cons_ne _ (hne hy)]
      have hkept : ∀ {u : α}, z ≠ u → (!u == z) = true := by
        intro u hu
        simpa using Ne.symm hu
      exact Nat.succ_lt_succ (idxOf_lt_of_filter (hkept (hne hx)) (hkept (hne hy)) hlt)
termination_by l.length
decreasing_by exact Nat.lt_succ_of_le (length_filter_le _ _)

theorem firstOccurrences_eraseDups (l : List α) : FirstOccurrences l l.eraseDups where
  nodup := by
    refine (pairwise_idxOf_eraseDups l).imp ?_
    intro x y hlt heq
    rw [heq] at hlt
    exact Nat.lt_irrefl _ hlt
  mem _ := mem_eraseDups
  order := pairwise_idxOf_eraseDups l

end FirstOccurrences

theorem infix_intercalate {separator t : List α} {texts : List (List α)} (h : t ∈ texts) :
    t <:+: separator.intercalate texts := by
  induction texts with
  | nil => cases h
  | cons x texts ih =>
    cases texts with
    | nil =>
      obtain rfl := mem_singleton.mp h
      simp [List.intercalate]
    | cons y texts =>
      rw [intercalate_cons_cons]
      obtain rfl | h := mem_cons.mp h
      · exact ⟨[], separator ++ separator.intercalate (y :: texts), by simp⟩
      · exact (ih h).trans (suffix_append _ _).isInfix

theorem intercalate_concat {separator x : List α} {texts : List (List α)} (h : texts ≠ []) :
    separator.intercalate (texts ++ [x]) = separator.intercalate texts ++ separator ++ x := by
  induction texts with
  | nil => exact absurd rfl h
  | cons y texts ih => cases texts <;> simp_all [intercalate_cons_cons]

theorem not_mem_of_mem_splitOn [BEq α] [LawfulBEq α] {u : α} {s piece : List α}
    (h : piece ∈ s.splitOn u) : u ∉ piece := by
  induction s generalizing piece with
  | nil =>
    rw [splitOn_nil, mem_singleton] at h
    rw [h]
    exact not_mem_nil
  | cons x s ih =>
    rw [splitOn_cons_eq_if_modifyHead] at h
    split at h
    · obtain rfl | h := mem_cons.mp h
      · exact not_mem_nil
      · exact ih h
    · rename_i hx
      cases hrest : s.splitOn u with
      | nil =>
        simp [hrest] at h
      | cons first rest =>
        rw [hrest, modifyHead_cons] at h
        obtain rfl | h := mem_cons.mp h
        · have hfirst : u ∉ first := ih (hrest ▸ mem_cons_self)
          have hux : u ≠ x := fun heq => hx (by simp [heq])
          simp [hux, hfirst]
        · exact ih (hrest ▸ mem_cons_of_mem first h)

end Bridge.Lib
