import Mathlib.Algebra.Order.BigOperators.Group.List
import Mathlib.Algebra.Order.Field.Basic
import Mathlib.Algebra.Order.Field.Rat

/-!
# Shares and averages

Exact averages of lists of rationals. The average of no numbers is zero, as a quotient by zero is
here; where a program divides, that it does not divide by zero is a statement of its own: `div` is
the division that stops there.
-/

namespace Bridge.Lib

open List

def IsShare (x : Rat) : Prop := 0 ≤ x ∧ x ≤ 1

theorem isShare_zero : IsShare 0 := ⟨le_refl 0, zero_le_one⟩

theorem isShare_div {m n : Nat} (h : m ≤ n) : IsShare ((m : Rat) / n) := by
  have hcast : (m : Rat) ≤ n := Nat.cast_le.mpr h
  exact ⟨div_nonneg m.cast_nonneg n.cast_nonneg, div_le_one_of_le₀ hcast n.cast_nonneg⟩

def mean (l : List Rat) : Rat := l.sum / l.length

theorem isShare_mean {l : List Rat} (h : ∀ x ∈ l, IsShare x) : IsShare (mean l) := by
  have hsum : 0 ≤ l.sum := sum_nonneg fun x hx => (h x hx).1
  have hle : l.sum ≤ l.length := by
    have hcard := sum_le_card_nsmul l 1 fun x hx => (h x hx).2
    simpa using hcard
  exact ⟨div_nonneg hsum l.length.cast_nonneg, div_le_one_of_le₀ hle l.length.cast_nonneg⟩

theorem mean_concat (l : List Rat) (x : Rat) :
    mean (l ++ [x]) = (mean l * l.length + x) / (l.length + 1) := by
  have hsum : mean l * l.length = l.sum := by
    cases l with
    | nil => simp
    | cons y l =>
      have hne : ((y :: l).length : Rat) ≠ 0 := by
        rw [length_cons]
        exact Nat.cast_ne_zero.mpr (Nat.succ_ne_zero _)
      rw [mean, div_mul_cancel₀ _ hne]
  rw [hsum, mean, sum_append, sum_singleton, length_append, length_singleton,
    Nat.cast_add, Nat.cast_one]

theorem weigh_eq (m x : Rat) {k : Rat} (hk : k ≠ 0) : (m * (k - 1) + x) / k = m + (x - m) / k := by
  rw [div_eq_iff hk, add_mul, div_mul_cancel₀ _ hk, mul_sub, mul_one, sub_add_eq_add_sub,
    add_sub_assoc]

theorem weigh_eq_mean_concat_iff (l : List Rat) (x : Rat) {k : Nat} (hk : k ≠ 0) :
    (mean l * ((k : Rat) - 1) + x) / k = mean (l ++ [x]) ↔ k = l.length + 1 ∨ x = mean l := by
  have hk' : (k : Rat) ≠ 0 := Nat.cast_ne_zero.mpr hk
  have hn : ((l.length + 1 : Nat) : Rat) ≠ 0 := Nat.cast_ne_zero.mpr (Nat.succ_ne_zero _)
  have hmean : mean (l ++ [x]) = mean l + (x - mean l) / (l.length + 1 : Nat) := by
    rw [mean_concat, ← weigh_eq _ _ hn, Nat.cast_add, Nat.cast_one, add_sub_cancel_right]
  rw [weigh_eq _ _ hk', hmean, add_right_inj, div_eq_div_iff hk' hn, mul_eq_mul_left_iff,
    Nat.cast_inj, sub_eq_zero, eq_comm]

def div (a b : Rat) : Option Rat := if b = 0 then none else some (a / b)

theorem div_eq_some {a b : Rat} (h : b ≠ 0) : div a b = some (a / b) := if_neg h

theorem filterAuxM_some {α : Type} (p : α → Bool) (l kept : List α) :
    l.filterAuxM (fun x => some (p x)) kept = some ((l.filter p).reverse ++ kept) := by
  induction l generalizing kept with
  | nil => rfl
  | cons x l ih =>
    cases hx : p x with
    | false | true => simp [filterAuxM, hx, ih]

theorem filterM_some {α : Type} (p : α → Bool) (l : List α) :
    l.filterM (fun x => some (p x)) = some (l.filter p) := by
  simp [filterM, filterAuxM_some]

end Bridge.Lib
