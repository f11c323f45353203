import Mathlib.Data.List.Nodup

/-!
# JSON values, as a program sees them

The values `JSON.parse` returns, with what a dynamically typed program does to them: test them for
truth, read a member of them, write one. Strings are sequences of UTF-16 code units, and the
numbers are a parameter. Reading a member of anything but an object gives nothing at all, and
reading one of `null` or of nothing is an error; that is the program's, and is not modelled here.
-/

namespace Bridge.Lib

open List

inductive Json (N : Type)
  | null
  | bool (b : Bool)
  | num (n : N)
  | str (s : List UInt16)
  | arr (elements : List (Json N))
  | obj (members : List (List UInt16 × Json N))

namespace Json

variable {N : Type}

def truthy (isZero : N → Bool) : Json N → Bool
  | .null => false
  | .bool b => b
  | .num n => !isZero n
  | .str s => !s.isEmpty
  | .arr _ | .obj _ => true

/-- The member of a value that is not `null`. -/
def prop (name : List UInt16) : Json N → Option (Json N)
  | .obj members => members.lookup name
  | _ => none

def setProp (j : Json N) (name : List UInt16) (v : Json N) : Json N :=
  match j with
  | .obj members =>
    if (members.lookup name).isSome then
      .obj (members.map fun f => if f.1 = name then (name, v) else f)
    else .obj (members ++ [(name, v)])
  | j => j

section Members

variable {name name' : List UInt16} {v : Json N} {members : List (List UInt16 × Json N)}

theorem lookup_replace_self (h : (members.lookup name).isSome) :
    (members.map fun f => if f.1 = name then (name, v) else f).lookup name = some v := by
  induction members with
  | nil => cases h
  | cons f members ih =>
    by_cases hf : f.1 = name
    · rw [map_cons, if_pos hf, lookup_cons, beq_self_eq_true]
    · have hne : (name == f.1) = false := beq_false_of_ne (Ne.symm hf)
      rw [lookup_cons, hne] at h
      rw [map_cons, if_neg hf, lookup_cons, hne]
      exact ih h

theorem lookup_replace_of_ne (hne : name' ≠ name) :
    (members.map fun f => if f.1 = name then (name, v) else f).lookup name' =
      members.lookup name' := by
  induction members with
  | nil => rfl
  | cons f members ih =>
    rw [map_cons, lookup_cons, lookup_cons, ih]
    by_cases hf : f.1 = name
    · have hname : (name' == name) = false := beq_false_of_ne hne
      rw [if_pos hf, hf, hname]
    · rw [if_neg hf]

theorem setProp_obj (name : List UInt16) (v : Json N) (members : List (List UInt16 × Json N)) :
    ∃ members', setProp (.obj members) name v = .obj members' ∧ members'.lookup name = some v ∧
      ∀ name' ≠ name, members'.lookup name' = members.lookup name' := by
  rw [setProp]
  split_ifs with h
  · exact ⟨_, rfl, lookup_replace_self h, fun name' hne => lookup_replace_of_ne hne⟩
  · refine ⟨_, rfl, ?_, ?_⟩
    · rw [lookup_append, Option.not_isSome_iff_eq_none.mp h]
      simp
    · intro name' hne
      rw [lookup_append]
      simp [lookup_cons, beq_false_of_ne hne]

end Members

def isPrimitive : Json N → Bool
  | .bool _ | .num _ | .str _ => true
  | .null | .arr _ | .obj _ => false

inductive WellFormed : Json N → Prop
  | null : WellFormed .null
  | bool (b : Bool) : WellFormed (.bool b)
  | num (n : N) : WellFormed (.num n)
  | str (s : List UInt16) : WellFormed (.str s)
  | arr {elements : List (Json N)} : (∀ x ∈ elements, WellFormed x) → WellFormed (.arr elements)
  | obj {members : List (List UInt16 × Json N)} : (members.map (·.1)).Nodup →
      (∀ f ∈ members, WellFormed f.2) → WellFormed (.obj members)

end Json
end Bridge.Lib
