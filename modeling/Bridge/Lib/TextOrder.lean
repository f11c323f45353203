import Bridge.Lib.Texts
import Mathlib.Data.List.Lex
import Mathlib.Data.List.Sort

/-!
# Texts in order

`sort()` without a function goes by the UTF-16 units of the texts. Numbers in them are compared
digit by digit from the left: of two numbers with as many digits the smaller one comes first
(`lt_of_digits`), but `10` comes before `9`.
-/

namespace Bridge.Lib.Utf16

open List

def unitsKey (s : Units) : List Nat := s.map UInt16.toNat

/-- `l.sort()` -/
def sortTexts (l : List Units) : List Units := l.insertionSort fun a b => unitsKey a ≤ unitsKey b

theorem perm_sortTexts (l : List Units) : (sortTexts l).Perm l := perm_insertionSort _ l

instance : Std.Total fun a b : Units => unitsKey a ≤ unitsKey b := ⟨fun _ _ => le_total _ _⟩

instance : IsTrans Units fun a b => unitsKey a ≤ unitsKey b := ⟨fun _ _ _ h h' => le_trans h h'⟩

theorem pairwise_sortTexts (l : List Units) :
    (sortTexts l).Pairwise fun a b => unitsKey a ≤ unitsKey b := pairwise_insertionSort _ l

/-! ## Numbers -/

def digits (n : Nat) : Units := ofString (toString n)

theorem digits_eq (n : Nat) : digits n = encode (Nat.toDigits 10 n) := by
  rw [digits, ofString, Nat.toString_eq_repr, Nat.toList_repr]

theorem digits_injective {m n : Nat} (h : ofString (toString m) = ofString (toString n)) :
    m = n := by
  have hdigits : Nat.toDigits 10 m = Nat.toDigits 10 n := by
    have hlists := congrArg decode h
    rwa [ofString, ofString, decode_encode, decode_encode, Nat.toString_eq_repr,
      Nat.toString_eq_repr, Nat.toList_repr, Nat.toList_repr] at hlists
  calc m = Nat.ofDigitChars 10 (Nat.toDigits 10 m) 0 := Nat.ofDigitChars_ten_toDigits.symm
    _ = Nat.ofDigitChars 10 (Nat.toDigits 10 n) 0 := by rw [hdigits]
    _ = n := Nat.ofDigitChars_ten_toDigits

theorem unitsKey_append (s s' : Units) : unitsKey (s ++ s') = unitsKey s ++ unitsKey s' :=
  map_append

theorem unitsKey_digit {n : Nat} (h : n < 10) : unitsKey (ofChar n.digitChar) = [48 + n] := by
  have hchar : n.digitChar.toNat = 48 + n := Nat.toNat_digitChar_of_lt_ten h
  rw [ofChar_ascii (by omega), hchar]
  exact congrArg (· :: []) (toNat_toUInt16 (by omega))

theorem unitsKey_digits_of_lt {n : Nat} (h : n < 10) : unitsKey (digits n) = [48 + n] := by
  rw [digits_eq, Nat.toDigits_of_lt_base h, encode, flatMap_singleton, unitsKey_digit h]

theorem unitsKey_digits_of_le {n : Nat} (h : 10 ≤ n) :
    unitsKey (digits n) = unitsKey (digits (n / 10)) ++ [48 + n % 10] := by
  have hlast : n % 10 < 10 := Nat.mod_lt n (by decide)
  rw [digits_eq, Nat.toDigits_of_base_le (by decide) h, encode, flatMap_append,
    flatMap_singleton, unitsKey_append, unitsKey_digit hlast, ← encode, ← digits_eq]

theorem length_digits_pos (n : Nat) : 0 < (unitsKey (digits n)).length := by
  by_cases h : n < 10
  · rw [unitsKey_digits_of_lt h]
    exact Nat.one_pos
  · rw [unitsKey_digits_of_le (Nat.not_lt.mp h), length_append]
    exact Nat.succ_pos _

theorem digits_split {m n : Nat}
    (hlength : (unitsKey (digits m)).length = (unitsKey (digits n)).length)
    (h : m < n) : ∃ p a b x y, unitsKey (digits m) = p ++ a :: x ∧ unitsKey (digits n) =
      p ++ b :: y ∧ a < b := by
  induction n using Nat.strong_induction_on generalizing m with
  | _ n ih =>
    by_cases hn : n < 10
    · have hm : m < 10 := by omega
      exact ⟨[], 48 + m, 48 + n, [], [], unitsKey_digits_of_lt hm, unitsKey_digits_of_lt
        hn, by omega⟩
    · have hkey := unitsKey_digits_of_le (Nat.not_lt.mp hn)
      by_cases hm : m < 10
      · -- one digit against more
        have hpos := length_digits_pos (n / 10)
        rw [unitsKey_digits_of_lt hm, hkey, length_append, length_singleton,
          length_singleton] at hlength
        omega
      · have hkey' := unitsKey_digits_of_le (Nat.not_lt.mp hm)
        by_cases hfirst : m / 10 < n / 10
        · have hshorter : (unitsKey (digits (m / 10))).length =
            (unitsKey (digits (n / 10))).length := by
            rw [hkey, hkey', length_append, length_append] at hlength
            exact Nat.add_right_cancel hlength
          obtain ⟨p, a, b, x, y, hx, hy, hlt⟩ := ih (n / 10) (by omega) hshorter hfirst
          refine ⟨p, a, b, x ++ [48 + m % 10], y ++ [48 + n % 10], ?_, ?_, hlt⟩
          · rw [hkey', hx, append_assoc, cons_append]
          · rw [hkey, hy, append_assoc, cons_append]
        · have hsame : m / 10 = n / 10 := by omega
          refine ⟨unitsKey (digits (n / 10)), 48 + m % 10, 48 + n % 10, [], [], ?_, hkey, by omega⟩
          rw [hkey', hsame]

theorem lt_of_common (p : List Nat) {a b : Nat} (x y : List Nat) (h : a < b) :
    p ++ a :: x < p ++ b :: y := by
  induction p with
  | nil => exact cons_lt_cons_iff.mpr (.inl h)
  | cons c p ih => exact cons_lt_cons_iff.mpr (.inr ⟨rfl, ih⟩)

/-- **Numbers of one length are in order.** -/
theorem lt_of_digits {m n : Nat} (hlength : (digits m).length = (digits n).length) (h : m < n)
    (before after after' : Units) :
    unitsKey (before ++ digits m ++ after) < unitsKey (before ++ digits n ++ after') := by
  have hkeys : (unitsKey (digits m)).length = (unitsKey (digits n)).length := by
    rw [unitsKey, unitsKey, length_map, length_map, hlength]
  obtain ⟨p, a, b, x, y, hm, hn, hlt⟩ := digits_split hkeys h
  have hsplit := lt_of_common (unitsKey before ++ p) (x ++ unitsKey after)
    (y ++ unitsKey after') hlt
  simp only [unitsKey_append, hm, hn, append_assoc, cons_append] at hsplit ⊢
  exact hsplit

end Bridge.Lib.Utf16
