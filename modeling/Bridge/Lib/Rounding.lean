import Mathlib.Data.Int.Log
import Mathlib.Data.Rat.Floor
import Mathlib.Tactic.Positivity

/-!
# Rounded arithmetic

An operation on the numbers of JavaScript is the exact operation, and then a rounding to a number
with 53 binary places. `Rounding` is what a proof may rely on; `exact` does not round at all, and
`double` rounds to the nearest, and halfway to the even one. There is no largest and no smallest
number here. -/

namespace Bridge.Lib

structure Rounding where
  round : Rat → Rat
  idem : ∀ x, round (round x) = round x
  one : round 1 = 1
  /-- The error is at most half a unit in the last place. -/
  near : ∀ x, |round x - x| ≤ |x| / 2 ^ 53
  /-- A number without its fraction is a number. -/
  floor : ∀ x, round x = x → round ⌊x⌋ = ⌊x⌋

theorem Rounding.round_le (r : Rounding) {x : Rat} (hx : 0 ≤ x) : r.round x ≤ x + x / 2 ^ 53 := by
  have hnear := (abs_le.mp (r.near x)).2
  rw [abs_of_nonneg hx] at hnear
  linarith

theorem Rounding.round_nonneg (r : Rounding) {x : Rat} (hx : 0 ≤ x) : 0 ≤ r.round x := by
  have hnear := (abs_le.mp (r.near x)).1
  rw [abs_of_nonneg hx] at hnear
  have hhalf : x / 2 ^ 53 ≤ x := div_le_self hx (by norm_num)
  linarith

namespace Rounding

def exact : Rounding where
  round x := x
  idem _ := rfl
  one := rfl
  near x := by
    rw [sub_self, abs_zero]
    positivity
  floor _ _ := rfl

@[simp]
theorem exact_round (x : Rat) : exact.round x = x := rfl

/-! ## Doubles -/

def roundEven (y : Rat) : Int :=
  if y - ⌊y⌋ < 1 / 2 then ⌊y⌋
  else if 1 / 2 < y - ⌊y⌋ then ⌊y⌋ + 1
  else if ⌊y⌋ % 2 = 0 then ⌊y⌋
  else ⌊y⌋ + 1

def lastPlace (x : Rat) : Int := Int.log 2 |x| - 52

def roundDouble (x : Rat) : Rat := roundEven (x / 2 ^ lastPlace x) * 2 ^ lastPlace x

theorem roundEven_near (y : Rat) : |(roundEven y : Rat) - y| ≤ 1 / 2 := by
  have hle := Int.floor_le y
  have hlt := Int.lt_floor_add_one y
  unfold roundEven
  rw [abs_le]
  split_ifs
  all_goals
    push_cast
    constructor <;> linarith

theorem roundEven_intCast (n : Int) : roundEven n = n := by
  unfold roundEven
  rw [Int.floor_intCast, sub_self, if_pos (by norm_num)]

theorem two_zpow_pos (e : Int) : (0 : Rat) < 2 ^ e := zpow_pos (by norm_num) e

theorem roundDouble_zero : roundDouble 0 = 0 := by simp [roundDouble, roundEven]

theorem roundDouble_near (x : Rat) : |roundDouble x - x| ≤ |x| / 2 ^ 53 := by
  by_cases hx : x = 0
  · rw [hx, roundDouble_zero, sub_self, abs_zero, zero_div]
  · have hpos := two_zpow_pos (lastPlace x)
    have hlog : (2 : Rat) ^ Int.log 2 |x| ≤ |x| := by
      exact_mod_cast Int.zpow_log_le_self Nat.one_lt_two (abs_pos.mpr hx)
    -- the first of the places is the 53rd before the one after the last
    have hplace : (2 : Rat) ^ lastPlace x * 2 ^ 52 = 2 ^ Int.log 2 |x| := by
      rw [lastPlace, ← zpow_natCast, ← zpow_add₀ (by norm_num)]
      norm_num
    have hdiff : roundDouble x - x =
        ((roundEven (x / 2 ^ lastPlace x) : Rat) - x / 2 ^ lastPlace x) * 2 ^ lastPlace x := by
      rw [roundDouble, sub_mul, div_mul_cancel₀ x hpos.ne']
    calc |roundDouble x - x|
        = |(roundEven (x / 2 ^ lastPlace x) : Rat) - x / 2 ^ lastPlace x| * 2 ^ lastPlace x := by
          rw [hdiff, abs_mul, abs_of_pos hpos]
      _ ≤ 1 / 2 * 2 ^ lastPlace x :=
          mul_le_mul_of_nonneg_right (roundEven_near _) hpos.le
      _ = 2 ^ Int.log 2 |x| / 2 ^ 53 := by
          rw [← hplace]
          ring
      _ ≤ |x| / 2 ^ 53 := by
          gcongr

theorem abs_lt_of_lastPlace (x : Rat) : |x| < 2 ^ (lastPlace x + 53) := by
  have hself : |x| < ((2 : Nat) : Rat) ^ (Int.log 2 |x| + 1) :=
    Int.lt_zpow_succ_log_self Nat.one_lt_two _
  rw [lastPlace, show Int.log 2 |x| - 52 + 53 = Int.log 2 |x| + 1 by ring]
  exact_mod_cast hself

theorem lastPlace_le {x : Rat} {e : Int} (hx : x ≠ 0) (h : |x| < 2 ^ (e + 53)) :
    lastPlace x ≤ e := by
  have hle : ((2 : Nat) : Rat) ^ Int.log 2 |x| ≤ |x| :=
    Int.zpow_log_le_self Nat.one_lt_two (abs_pos.mpr hx)
  have hlog : (2 : Rat) ^ Int.log 2 |x| < 2 ^ (e + 53) := by exact_mod_cast hle.trans_lt h
  have hlt := (zpow_lt_zpow_iff_right₀ (by norm_num : (1 : Rat) < 2)).mp hlog
  rw [lastPlace]
  omega

theorem roundDouble_of_lastPlace_le {n e : Int} (h : lastPlace (n * 2 ^ e) ≤ e) :
    roundDouble (n * 2 ^ e) = n * 2 ^ e := by
  have hpos := two_zpow_pos (lastPlace (n * 2 ^ e))
  obtain ⟨k, hk⟩ := Int.eq_ofNat_of_zero_le (sub_nonneg.mpr h)
  have hint : (n * 2 ^ e : Rat) / 2 ^ lastPlace (n * 2 ^ e) = ((n * 2 ^ k : Int) : Rat) := by
    rw [mul_div_assoc, ← zpow_sub₀ (by norm_num), hk, zpow_natCast]
    push_cast
    rfl
  conv_lhs => rw [roundDouble, hint, roundEven_intCast, ← hint]
  exact div_mul_cancel₀ _ hpos.ne'

theorem roundDouble_mul_zpow {n e : Int} (h : |n| < 2 ^ 53) : roundDouble (n * 2 ^ e) =
    n * 2 ^ e := by
  by_cases hzero : (n * 2 ^ e : Rat) = 0
  · rw [hzero, roundDouble_zero]
  · refine roundDouble_of_lastPlace_le (lastPlace_le hzero ?_)
    have hlt : |(n : Rat)| < 2 ^ 53 := by exact_mod_cast h
    rw [abs_mul, abs_of_pos (two_zpow_pos e), add_comm, zpow_add₀ (by norm_num)]
    exact mul_lt_mul_of_pos_right (by exact_mod_cast hlt) (two_zpow_pos e)

theorem roundDouble_intCast {n : Int} (h : |n| < 2 ^ 53) : roundDouble n = n := by
  have hround : roundDouble (n * 2 ^ (0 : Int)) = n * 2 ^ (0 : Int) := roundDouble_mul_zpow h
  rwa [zpow_zero, mul_one] at hround

theorem roundDouble_floor (x : Rat) (h : roundDouble x = x) : roundDouble ⌊x⌋ = ⌊x⌋ := by
  rcases le_or_gt 0 (lastPlace x) with hplace | hplace
  · -- such a number has no fraction
    obtain ⟨k, hk⟩ := Int.eq_ofNat_of_zero_le hplace
    have hint : x = ((roundEven (x / 2 ^ lastPlace x) * 2 ^ k : Int) : Rat) := by
      conv_lhs => rw [← h, roundDouble]
      rw [hk, zpow_natCast]
      push_cast
      rfl
    have hfloor : ((⌊x⌋ : Int) : Rat) = x := by
      conv_lhs => rw [hint]
      rw [Int.floor_intCast]
      exact hint.symm
    rw [hfloor, h]
  · have hlt : |x| < 2 ^ (52 : Int) := by
      refine (abs_lt_of_lastPlace x).trans_le ?_
      exact zpow_le_zpow_right₀ (by norm_num) (by omega)
    have hbounds := abs_lt.mp hlt
    have hle := Int.floor_le x
    have hsucc := Int.lt_floor_add_one x
    have hlo : ((-(2 ^ 53) : Int) : Rat) < ⌊x⌋ := by
      push_cast
      norm_num at hbounds ⊢
      linarith
    have hhi : (⌊x⌋ : Rat) < ((2 ^ 53 : Int) : Rat) := by
      push_cast
      norm_num at hbounds ⊢
      linarith
    exact roundDouble_intCast (abs_lt.mpr ⟨Int.cast_lt.mp hlo, Int.cast_lt.mp hhi⟩)

theorem abs_roundEven_le (x : Rat) : |roundEven (x / 2 ^ lastPlace x)| ≤ 2 ^ 53 := by
  have hpos := two_zpow_pos (lastPlace x)
  have hlt : |x / 2 ^ lastPlace x| < 2 ^ 53 := by
    rw [abs_div, abs_of_pos hpos, div_lt_iff₀ hpos, ← zpow_natCast, ← zpow_add₀ (by norm_num),
      add_comm]
    exact abs_lt_of_lastPlace x
  have hnear := abs_le.mp (roundEven_near (x / 2 ^ lastPlace x))
  have hbound := abs_lt.mp hlt
  have hlo : ((-(2 ^ 53) - 1 : Int) : Rat) < roundEven (x / 2 ^ lastPlace x) := by
    push_cast
    linarith
  have hhi : (roundEven (x / 2 ^ lastPlace x) : Rat) < ((2 ^ 53 + 1 : Int) : Rat) := by
    push_cast
    linarith
  have hlo' := Int.cast_lt.mp hlo
  have hhi' := Int.cast_lt.mp hhi
  rw [abs_le]
  omega

theorem roundDouble_idem (x : Rat) : roundDouble (roundDouble x) = roundDouble x := by
  have hle := abs_roundEven_le x
  have hdef : roundDouble x = roundEven (x / 2 ^ lastPlace x) * 2 ^ lastPlace x := rfl
  rw [hdef]
  generalize roundEven (x / 2 ^ lastPlace x) = n at hle
  rcases hle.lt_or_eq with hlt | heq
  · exact roundDouble_mul_zpow hlt
  · -- one more than all numbers with this last place: the next place is the last
    obtain ⟨m, hm, rfl⟩ : ∃ m : Int, |m| < 2 ^ 53 ∧ n = m * 2 := by
      refine ⟨n / 2, ?_, ?_⟩
      · rw [abs_lt]
        rcases abs_choice n with h | h <;> omega
      · rcases abs_choice n with h | h <;> omega
    have hnext : (((m * 2 : Int) : Rat) * 2 ^ lastPlace x) = m * 2 ^ (lastPlace x + 1) := by
      rw [zpow_add_one₀ (by norm_num)]
      push_cast
      ring
    rw [hnext]
    exact roundDouble_mul_zpow hm

def double : Rounding where
  round := roundDouble
  idem := roundDouble_idem
  one := by
    have hone : roundDouble ((1 : Int) : Rat) = ((1 : Int) : Rat) :=
      roundDouble_intCast (by norm_num)
    exact_mod_cast hone
  near := roundDouble_near
  floor := roundDouble_floor

end Rounding

end Bridge.Lib
