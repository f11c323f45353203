import Mathlib.Data.ENat.Lattice
import Mathlib.Data.Set.Card

/-!
# Keeping the most recent

Things have times, and names by which they are listed; names of other things may be in the list.
`Newest k S R` is that of the times `S` the most recent `k` are left. Keeping the first `k` names of
a list does that, and deletes no other thing, iff the list is no longer than that, or has no other
thing in it and none behind the cut is as recent as one before it.
-/

namespace Bridge.Lib

open List

variable {α β : Type}

/-- Of the times `S` the most recent `k` are left, or all of them if they are fewer. -/
structure Newest [LT β] (k : Nat) (S R : Set β) : Prop where
  subset : R ⊆ S
  newer : ∀ n ∈ R, ∀ m ∈ S \ R, m < n
  card : R.encard = min (k : ℕ∞) S.encard

theorem newest_self_iff [LT β] {k : Nat} {S : Set β} : Newest k S S ↔ S.encard ≤ k := by
  constructor
  · intro h
    rw [h.card]
    exact min_le_left _ _
  · intro h
    exact ⟨subset_rfl, fun n _ m hm => absurd hm.1 hm.2, (min_eq_right h).symm⟩

section Names

variable {name : β → α} {files : List α} {k : Nat}

theorem encard_mem (hnodup : files.Nodup) : {x | x ∈ files}.encard = files.length := by
  classical
  rw [← coe_toFinset, Set.encard_coe_eq_coe_finsetCard, toFinset_card_of_nodup hnodup]

theorem encard_named_le (hname : Function.Injective name) (hnodup : files.Nodup) :
    {n | name n ∈ files}.encard ≤ files.length := by
  rw [← encard_mem hnodup, ← hname.encard_image]
  exact Set.encard_le_encard (Set.image_subset_iff.mpr fun n hn => hn)

theorem encard_named (hname : Function.Injective name) (hnodup : files.Nodup)
    (hall : ∀ x ∈ files, x ∈ Set.range name) : {n | name n ∈ files}.encard = files.length := by
  rw [← encard_mem hnodup]
  exact Set.encard_preimage_of_injective_subset_range hname hall

theorem mem_take_iff (hnodup : files.Nodup) {x : α} : x ∈ files.take k ↔ x ∈ files ∧
    x ∉ files.drop k := by
  constructor
  · intro h
    exact ⟨mem_of_mem_take h, fun h' => disjoint_take_drop hnodup (Nat.le_refl k) h h'⟩
  · rintro ⟨h, hnot⟩
    rw [← take_append_drop k files, mem_append] at h
    exact h.resolve_right hnot

theorem newest_of_short [LT β] (hname : Function.Injective name) (hnodup : files.Nodup)
    (h : files.length ≤ k) : Newest k {n | name n ∈ files} {n | name n ∈ files.take k} := by
  rw [take_of_length_le h]
  exact newest_self_iff.mpr ((encard_named_le hname hnodup).trans (Nat.cast_le.mpr h))

theorem Newest.encard_eq [LT β] {S R : Set β} (h : Newest k S R) (hfinite : S.Finite) {m : β}
    (hm : m ∈ S) (hdropped : m ∉ R) : R.encard = k := by
  have hlt : R.encard < S.encard :=
    (hfinite.subset h.subset).encard_lt_encard ⟨h.subset, fun hsub => hdropped (hsub hm)⟩
  have hcard := h.card
  rcases min_choice (k : ℕ∞) S.encard with hk | hS
  · rwa [hk] at hcard
  · rw [hS] at hcard
    exact absurd hcard hlt.ne

theorem encard_named_lt (hname : Function.Injective name) (hnodup : files.Nodup) {x : α}
    (hx : x ∈ files)
    (hother : x ∉ Set.range name) : {n | name n ∈ files}.encard < files.length := by
  rw [← encard_mem hnodup, ← hname.encard_image]
  have hsub : Set.image name {n | name n ∈ files} ⊆ {x | x ∈ files} :=
    Set.image_subset_iff.mpr fun n hn => hn
  refine ((finite_toSet files).subset hsub).encard_lt_encard ⟨hsub, ?_⟩
  intro hall
  obtain ⟨n, -, rfl⟩ := hall hx
  exact hother ⟨n, rfl⟩

/-- **The first `k` of a list.** -/
theorem newest_take_iff [LT β] (hname : Function.Injective name) (hnodup : files.Nodup) :
    (Newest k {n | name n ∈ files} {n | name n ∈ files.take k} ∧
      ∀ x ∈ files.drop k, x ∈ Set.range name) ↔
    files.length ≤ k ∨ ((∀ x ∈ files, x ∈ Set.range name) ∧
      ∀ n m, name n ∈ files.take k → name m ∈ files.drop k → m < n) := by
  constructor
  · rintro ⟨hnewest, hdropped⟩
    by_cases hshort : files.length ≤ k
    · exact .inl hshort
    · refine .inr ⟨?_, ?_⟩
      · -- another thing would take one of the `k` places
        intro x hx
        by_contra hother
        have htake : x ∈ files.take k :=
          (mem_take_iff hnodup).mpr ⟨hx, fun h => hother (hdropped x h)⟩
        have hlt := encard_named_lt hname (hnodup.take (i := k)) htake hother
        have hpos : 0 < (files.drop k).length := by
          rw [length_drop]
          omega
        obtain ⟨y, hy⟩ := exists_mem_of_length_pos hpos
        obtain ⟨m, rfl⟩ := hdropped y hy
        have hfinite : {n | name n ∈ files}.Finite :=
          Set.finite_of_encard_le_coe (encard_named_le hname hnodup)
        have hfull := hnewest.encard_eq hfinite (mem_of_mem_drop hy)
          fun h => ((mem_take_iff hnodup).mp h).2 hy
        rw [hfull, length_take, min_eq_left (by omega)] at hlt
        exact hlt.false
      · intro n m hn hm
        have hm' : m ∈ {n | name n ∈ files} \ {n | name n ∈ files.take k} :=
          ⟨mem_of_mem_drop hm, fun h => ((mem_take_iff hnodup).mp h).2 hm⟩
        exact hnewest.newer n hn m hm'
  · rintro (hshort | ⟨hall, hnewer⟩)
    · refine ⟨newest_of_short hname hnodup hshort, ?_⟩
      rw [drop_of_length_le hshort]
      exact fun x hx => absurd hx not_mem_nil
    · refine ⟨⟨fun n hn => mem_of_mem_take hn, ?_, ?_⟩, fun x hx => hall x (mem_of_mem_drop hx)⟩
      · intro n hn m hm
        have hdropped : name m ∈ files.drop k := by
          by_contra hnot
          exact hm.2 ((mem_take_iff hnodup).mpr ⟨hm.1, hnot⟩)
        exact hnewer n m hn hdropped
      · have htake := encard_named hname (hnodup.take (i := k)) fun x hx =>
          hall x (mem_of_mem_take hx)
        rw [htake, encard_named hname hnodup hall, length_take]
        exact Nat.mono_cast.map_min

end Names

end Bridge.Lib
