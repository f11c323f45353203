import Mathlib.Data.List.Basic

/-!
# A heap of mutable objects

Objects of one type, named by references. A reference is a position, so it is never reused, and two
variables that hold the same one see each other's writes: this is all there is to aliasing.
-/

namespace Bridge.Lib

open List

variable {α : Type}

structure Heap (α : Type) where
  cells : List α
  deriving DecidableEq

namespace Heap

variable {h : Heap α} {r r' : Nat} {a b : α}

def empty : Heap α := ⟨[]⟩

def read (h : Heap α) (r : Nat) : Option α := h.cells[r]?

def next (h : Heap α) : Nat := h.cells.length

def alloc (h : Heap α) (a : α) : Heap α := ⟨h.cells ++ [a]⟩

def write (h : Heap α) (r : Nat) (a : α) : Heap α := ⟨h.cells.set r a⟩

theorem read_alloc_next : (h.alloc a).read h.next = some a := by
  simp [read, alloc, next]

theorem read_alloc (hr : h.read r = some b) : (h.alloc a).read r = some b := by
  have hlt : r < h.cells.length := (List.getElem?_eq_some_iff.mp hr).1
  rw [read, alloc, getElem?_append_left hlt]
  exact hr

theorem read_write_self (hr : h.read r = some b) : (h.write r a).read r = some a :=
  List.getElem?_set_self (List.getElem?_eq_some_iff.mp hr).1

theorem read_write_ne (hne : r ≠ r') : (h.write r a).read r' = h.read r' :=
  getElem?_set_ne hne

def Valid (h : Heap α) (r : Nat) : Prop := ∃ a, h.read r = some a

theorem Valid.alloc (hr : h.Valid r) : (h.alloc a).Valid r := by
  obtain ⟨b, hb⟩ := hr
  exact ⟨b, read_alloc hb⟩

theorem Valid.write (hr : h.Valid r) : (h.write r' a).Valid r := by
  obtain ⟨b, hb⟩ := hr
  have hlt : r < (h.cells.set r' a).length := by
    rw [length_set]
    exact (List.getElem?_eq_some_iff.mp hb).1
  exact ⟨_, getElem?_eq_getElem hlt⟩

theorem Valid.ne_next (hr : h.Valid r) : r ≠ h.next := by
  obtain ⟨b, hb⟩ := hr
  exact Nat.ne_of_lt (List.getElem?_eq_some_iff.mp hb).1

end Heap

end Bridge.Lib
