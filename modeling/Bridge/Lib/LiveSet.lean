import Mathlib.Data.List.Basic

/-!
# A set to go through while it changes

A set that keeps its elements in the order they were added, as the `Set` of a JavaScript program
does. Deleting an element leaves an empty slot behind, so a loop over the set that stands at some
slot goes on from there whatever is added or deleted in the meantime: it meets what was added, and
does not meet what was deleted.
-/

namespace Bridge.Lib

open List

structure LiveSet (K : Type) where
  slots : List (Option K)

namespace LiveSet

variable {K : Type} {s : LiveSet K} {x y : K}

def empty : LiveSet K := ⟨[]⟩

instance : Membership K (LiveSet K) := ⟨fun s x => some x ∈ s.slots⟩

instance [DecidableEq K] : Decidable (x ∈ s) := inferInstanceAs (Decidable (some x ∈ s.slots))

def add [DecidableEq K] (s : LiveSet K) (x : K) : LiveSet K :=
  if x ∈ s then s else ⟨s.slots ++ [some x]⟩

def delete [DecidableEq K] (s : LiveSet K) (x : K) : LiveSet K :=
  ⟨s.slots.map fun slot => if slot = some x then none else slot⟩

theorem not_mem_empty : x ∉ (empty : LiveSet K) := not_mem_nil

theorem mem_add [DecidableEq K] : y ∈ s.add x ↔ y = x ∨ y ∈ s := by
  unfold add
  split_ifs with hx
  · refine ⟨.inr, ?_⟩
    rintro (rfl | hy)
    · exact hx
    · exact hy
  · show some y ∈ s.slots ++ [some x] ↔ _
    rw [mem_append, mem_singleton, Option.some.injEq, or_comm]
    rfl

theorem mem_delete [DecidableEq K] : y ∈ s.delete x ↔ y ≠ x ∧ y ∈ s := by
  show some y ∈ s.slots.map (fun slot => if slot = some x then none else slot) ↔ _
  rw [mem_map]
  constructor
  · rintro ⟨slot, hslot, heq⟩
    split at heq
    · cases heq
    · rename_i hne
      subst heq
      exact ⟨fun h => hne (congrArg some h), hslot⟩
  · rintro ⟨hne, hy⟩
    refine ⟨some y, hy, if_neg ?_⟩
    exact fun h => hne (Option.some.inj h)

theorem delete_of_not_mem [DecidableEq K] (h : x ∉ s) : s.delete x = s := by
  have hmap : s.slots.map (fun slot => if slot = some x then none else slot) = s.slots.map id := by
    refine map_congr_left fun slot hslot => if_neg ?_
    intro heq
    subst heq
    exact h hslot
  exact congrArg LiveSet.mk (hmap.trans (map_id s.slots))

end LiveSet

end Bridge.Lib
