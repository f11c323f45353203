import Bridge.Lib.Heap
import Mathlib.Data.List.Pairwise

/-!
# A map of mutable objects

A `Map` whose values are objects: keys with references, in the order of insertion, and a heap. An
object that is there is changed in place, and a new one is allocated and put. As long as no two keys
share an object (`Unaliased`), both change what is found under one key and nothing else.
-/

namespace Bridge.Lib

open List Option

namespace ObjectMap

variable {K α : Type} [DecidableEq K] [BEq K] [LawfulBEq K] {refs : List (K × Nat)}
  {h : Heap α} {k k' : K} {r : Nat} {a b : α}

def get (refs : List (K × Nat)) (h : Heap α) (k : K) : Option α := (refs.lookup k).bind h.read

/-- `Map.set` -/
def put (refs : List (K × Nat)) (k : K) (r : Nat) : List (K × Nat) :=
  if (refs.lookup k).isSome then refs.map fun e =>
    if e.1 = k then (k, r) else e else refs ++ [(k, r)]

omit [DecidableEq K] in
theorem mem_of_lookup (hk : refs.lookup k = some r) : (k, r) ∈ refs := by
  obtain ⟨l₁, l₂, rfl, -⟩ := lookup_eq_some_iff.mp hk
  exact mem_append_right _ mem_cons_self

theorem lookup_map_self (r : Nat) (refs : List (K × Nat)) (hk : (refs.lookup k).isSome = true) :
    (refs.map fun e => if e.1 = k then (k, r) else e).lookup k = some r := by
  induction refs with
  | nil => cases hk
  | cons e refs ih =>
    obtain ⟨key, r'⟩ := e
    by_cases hkey : key = k
    · simp [hkey]
    · have hne : (k == key) = false := beq_false_of_ne (Ne.symm hkey)
      rw [lookup_cons, hne] at hk
      rw [map_cons, if_neg hkey, lookup_cons, hne]
      exact ih hk

theorem lookup_map_ne (hne : k' ≠ k) (r : Nat) (refs : List (K × Nat)) :
    (refs.map fun e => if e.1 = k then (k, r) else e).lookup k' = refs.lookup k' := by
  induction refs with
  | nil => rfl
  | cons e refs ih =>
    obtain ⟨key, r'⟩ := e
    by_cases hkey : key = k
    · have hbeq : (k' == k) = false := beq_false_of_ne hne
      rw [map_cons, if_pos hkey, lookup_cons, hbeq, lookup_cons, hkey, hbeq]
      exact ih
    · rw [map_cons, if_neg hkey, lookup_cons, lookup_cons, ih]

theorem lookup_put (refs : List (K × Nat)) (k : K) (r : Nat) (k' : K) :
    (put refs k r).lookup k' = if k' = k then some r else refs.lookup k' := by
  unfold put
  split
  · rename_i hk
    split
    · rename_i heq
      rw [heq]
      exact lookup_map_self r refs hk
    · rename_i hne
      exact lookup_map_ne hne r refs
  · rename_i hk
    rw [lookup_append]
    split
    · rename_i heq
      rw [heq, not_isSome_iff_eq_none.mp hk]
      simp
    · rename_i hne
      rw [lookup_cons, beq_false_of_ne hne]
      exact or_none

/-- Keys and references each occur once, and every reference is to an object. -/
structure Unaliased (refs : List (K × Nat)) (h : Heap α) : Prop where
  apart : refs.Pairwise fun e e' => e.1 ≠ e'.1 ∧ e.2 ≠ e'.2
  valid : ∀ e ∈ refs, h.Valid e.2

namespace Unaliased

omit [DecidableEq K] [BEq K] [LawfulBEq K] in
theorem nil : Unaliased ([] : List (K × Nat)) h := ⟨.nil, fun _ he => absurd he not_mem_nil⟩

omit [DecidableEq K] [BEq K] [LawfulBEq K] in
theorem ne_of_mem (hu : Unaliased refs h) {e e' : K × Nat} (he : e ∈ refs) (he' : e' ∈ refs)
    (hne : e ≠ e') : e.1 ≠ e'.1 ∧ e.2 ≠ e'.2 := by
  have hsymm : Std.Symm fun e e' : K × Nat => e.1 ≠ e'.1 ∧ e.2 ≠ e'.2 :=
    ⟨fun _ _ hn => ⟨hn.1.symm, hn.2.symm⟩⟩
  exact hu.apart.forall he he' hne

omit [DecidableEq K] [BEq K] [LawfulBEq K] in
theorem write (hu : Unaliased refs h) (r : Nat) (a : α) : Unaliased refs (h.write r a) :=
  ⟨hu.apart, fun e he => (hu.valid e he).write⟩

theorem put_alloc (hu : Unaliased refs h) (k : K) (a : α) :
    Unaliased (put refs k h.next) (h.alloc a) := by
  have hold : ∀ e ∈ refs, e.2 ≠ h.next := fun e he => (hu.valid e he).ne_next
  unfold put
  split
  · constructor
    · rw [pairwise_map]
      refine hu.apart.imp_of_mem fun {e e'} he he' hne => ?_
      by_cases hk : e.1 = k
      · have hk' : e'.1 ≠ k := fun heq => hne.1 (hk.trans heq.symm)
        rw [if_pos hk, if_neg hk']
        exact ⟨hk'.symm, (hold e' he').symm⟩
      · rw [if_neg hk]
        split
        · exact ⟨hk, hold e he⟩
        · exact hne
    · intro e he
      obtain ⟨e₀, he₀, rfl⟩ := mem_map.mp he
      split
      · exact ⟨a, Heap.read_alloc_next⟩
      · exact (hu.valid e₀ he₀).alloc
  · rename_i hk
    have hnone := lookup_eq_none_iff.mp (not_isSome_iff_eq_none.mp hk)
    constructor
    · refine pairwise_append.mpr ⟨hu.apart, pairwise_singleton _ _, ?_⟩
      intro e he e' he'
      rw [mem_singleton.mp he']
      exact ⟨(bne_iff_ne.mp (hnone e he)).symm, hold e he⟩
    · intro e he
      obtain he | he := mem_append.mp he
      · exact (hu.valid e he).alloc
      · rw [mem_singleton.mp he]
        exact ⟨a, Heap.read_alloc_next⟩

end Unaliased

theorem get_put_alloc (hu : Unaliased refs h) (k : K) (a : α) (k' : K) :
    get (put refs k h.next) (h.alloc a) k' = if k' = k then some a else get refs h k' := by
  rw [get, lookup_put]
  split
  · exact Heap.read_alloc_next
  · rw [get]
    cases hr : refs.lookup k' with
    | none => rfl
    | some r =>
      obtain ⟨b, hb⟩ := hu.valid _ (mem_of_lookup hr)
      rw [bind_some, bind_some, Heap.read_alloc hb, hb]

theorem get_write (hu : Unaliased refs h) (hk : refs.lookup k = some r) (a : α) (k' : K) :
    get refs (h.write r a) k' = if k' = k then some a else get refs h k' := by
  rw [get]
  split
  · rename_i heq
    obtain ⟨b, hb⟩ := hu.valid _ (mem_of_lookup hk)
    rw [heq, hk]
    exact Heap.read_write_self hb
  · rename_i hne
    rw [get]
    cases hr : refs.lookup k' with
    | none => rfl
    | some r' =>
      have hpair : ((k', r') : K × Nat) ≠ (k, r) := fun heq => hne (Prod.mk.inj heq).1
      exact Heap.read_write_ne (hu.ne_of_mem (mem_of_lookup hr) (mem_of_lookup hk) hpair).2.symm

def entries (refs : List (K × Nat)) (h : Heap α) : List (K × α) :=
  refs.filterMap fun e => (h.read e.2).map fun a => (e.1, a)

omit [DecidableEq K] in
theorem mem_entries (hu : Unaliased refs h) : (k, a) ∈ entries refs h ↔ get refs h k = some a := by
  simp only [entries, mem_filterMap, map_eq_some_iff, Prod.mk.injEq, get, bind_eq_some_iff]
  constructor
  · rintro ⟨e, he, b, hb, rfl, rfl⟩
    refine ⟨e.2, ?_, hb⟩
    obtain ⟨l₁, l₂, rfl⟩ := append_of_mem he
    refine lookup_eq_some_iff.mpr ⟨l₁, l₂, rfl, fun e' he' => ?_⟩
    exact bne_iff_ne.mpr ((pairwise_append.mp hu.apart).2.2 e' he' e mem_cons_self).1.symm
  · rintro ⟨r, hr, ha⟩
    exact ⟨(k, r), mem_of_lookup hr, a, ha, rfl, rfl⟩

end ObjectMap

end Bridge.Lib
