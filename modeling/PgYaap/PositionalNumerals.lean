import Mathlib

/-! # Numerals in a base

A numeral is a sequence of digits and the weight of the first one: digit `i` counts powers
`weight - i` of the base. Horner's rule gives its integer part, and where all digits past the
first fractional one are zero, that digit is the rest. -/
namespace PgYaap
namespace PositionalNumerals

variable (base : Nat) (digits : Nat → Int)

/-- The value of the first `count` digits. -/
def numeral (weight : Int) (count : Nat) : ℚ :=
  ∑ i ∈ Finset.range count, (digits i : ℚ) * (base : ℚ) ^ (weight - i)

/-- Horner's rule for the first `count` digits, as an integer. -/
def horner : Nat → Int
  | 0 => 0
  | count + 1 => horner count * base + digits count

/-- Digits that are zero do not count. -/
theorem numeral_of_zero {weight : Int} {count count' : Nat} (hle : count ≤ count')
    (hzero : ∀ i, count ≤ i → digits i = 0) :
    numeral base digits weight count' = numeral base digits weight count := by
  refine (Finset.sum_subset (Finset.range_subset_range.2 hle) fun i _ hi => ?_).symm
  rw [hzero i (not_lt.1 fun h => hi (Finset.mem_range.2 h)), Int.cast_zero, zero_mul]

variable {base digits}

theorem numeral_succ (hbase : base ≠ 0) (count : Nat) :
    numeral base digits count (count + 1) = numeral base digits (count - 1) count * base +
      digits count := by
  rw [numeral, Finset.sum_range_succ, sub_self, zpow_zero, mul_one, numeral, Finset.sum_mul]
  congr 1
  refine Finset.sum_congr rfl fun i _ => ?_
  rw [mul_assoc, ← zpow_add_one₀ (Nat.cast_ne_zero.2 hbase)]
  congr 2
  ring

/-- The digits before the point are an integer. -/
theorem numeral_eq_horner (hbase : base ≠ 0) (count : Nat) :
    numeral base digits (count - 1) count = horner base digits count := by
  induction count with
  | zero => simp [numeral, horner]
  | succ count ih =>
    have hweight : ((count + 1 : Nat) : Int) - 1 = count := by push_cast; ring
    rw [hweight, numeral_succ hbase, ih, horner]
    push_cast
    rfl

/-- **One fractional digit.** The value of a numeral whose digits end with the first one
after the point. -/
theorem numeral_eq_horner_add (hbase : base ≠ 0) {weight : Int} {count : Nat}
    (hcount : ∀ i, count ≤ i → digits i = 0)
    (hzero : ∀ i : Nat, weight + 1 < i → digits i = 0) :
    numeral base digits weight count = horner base digits (weight + 1).toNat +
      (if 0 ≤ weight + 1 then digits (weight + 1).toNat else 0 : Int) / base := by
  rcases lt_or_ge (weight + 1) 0 with hneg | hpos
  · have hnone : ∀ i, digits i = 0 := fun i => hzero i (hneg.trans_le (Int.natCast_nonneg i))
    rw [if_neg (not_le.2 hneg), Int.toNat_of_nonpos hneg.le, horner, numeral]
    simp [hnone]
  · obtain ⟨m, hm⟩ := Int.eq_ofNat_of_zero_le hpos
    obtain rfl : weight = m - 1 := by omega
    rw [if_pos hpos, hm, Int.toNat_natCast, ← numeral_eq_horner hbase]
    rw [← numeral_of_zero base digits (Nat.le_max_left count (m + 1)) hcount,
      numeral_of_zero base digits (Nat.le_max_right count (m + 1)) fun i hi => hzero i (by omega)]
    rw [numeral, Finset.sum_range_succ, numeral, show ((m : Int) - 1 - m) = -1 by ring,
      zpow_neg_one, div_eq_mul_inv]

/-- Horner's rule grows with the digits. -/
theorem horner_nonneg (h : ∀ i, 0 ≤ digits i) (count : Nat) : 0 ≤ horner base digits count := by
  induction count with
  | zero => exact le_rfl
  | succ count ih => exact add_nonneg (mul_nonneg ih (Int.natCast_nonneg base)) (h count)

/-! ## Digits after the point -/

variable (base digits) in
/-- The value of the digits after the point. -/
def fraction (weight : Int) (count : Nat) : ℚ :=
  ∑ i ∈ Finset.range count,
    if weight < i then (digits i : ℚ) * (base : ℚ) ^ (weight - i) else 0

theorem fraction_succ (weight : Int) (count : Nat) :
    fraction base digits weight (count + 1) = fraction base digits weight count +
      if weight < count then (digits count : ℚ) * (base : ℚ) ^ (weight - count) else 0 := by
  rw [fraction, Finset.sum_range_succ]
  rfl

theorem fraction_of_zero {weight : Int} {count count' : Nat} (hle : count ≤ count')
    (hzero : ∀ i, count ≤ i → digits i = 0) :
    fraction base digits weight count' = fraction base digits weight count := by
  refine (Finset.sum_subset (Finset.range_subset_range.2 hle) fun i _ hi => ?_).symm
  rw [hzero i (not_lt.1 fun h => hi (Finset.mem_range.2 h)), Int.cast_zero, zero_mul, ite_self]

/-- **The integer part and the rest.** -/
theorem numeral_eq_horner_add_fraction (hbase : base ≠ 0) {weight : Int} {count : Nat}
    (hcount : ∀ i, count ≤ i → digits i = 0) :
    numeral base digits weight count = horner base digits (weight + 1).toNat +
      fraction base digits weight count := by
  have hsplit : ∀ count : Nat, numeral base digits weight count =
      (∑ i ∈ Finset.range count,
        if weight < i then 0 else (digits i : ℚ) * (base : ℚ) ^ (weight - i)) +
        fraction base digits weight count := by
    intro count
    rw [numeral, fraction, ← Finset.sum_add_distrib]
    refine Finset.sum_congr rfl fun i _ => ?_
    by_cases hi : weight < i
    · rw [if_pos hi, if_pos hi, zero_add]
    · rw [if_neg hi, if_neg hi, add_zero]
  rcases lt_or_ge (weight + 1) 0 with hneg | hpos
  · rw [hsplit, Int.toNat_of_nonpos hneg.le, horner, Int.cast_zero]
    congr 1
    refine Finset.sum_eq_zero fun i _ => if_pos ?_
    omega
  · obtain ⟨m, hm⟩ := Int.eq_ofNat_of_zero_le hpos
    obtain rfl : weight = m - 1 := by omega
    rw [hm, Int.toNat_natCast, ← numeral_eq_horner hbase,
      ← numeral_of_zero base digits (Nat.le_max_left count m) hcount,
      ← fraction_of_zero (Nat.le_max_left count m) hcount, hsplit]
    congr 1
    rw [numeral]
    symm
    calc ∑ i ∈ Finset.range m, (digits i : ℚ) * (base : ℚ) ^ ((m : Int) - 1 - i)
        = ∑ i ∈ Finset.range m, (if (m : Int) - 1 < i then 0
            else (digits i : ℚ) * (base : ℚ) ^ ((m : Int) - 1 - i)) := by
          refine Finset.sum_congr rfl fun i hi => (if_neg ?_).symm
          have := Finset.mem_range.1 hi
          omega
      _ = _ := by
          refine Finset.sum_subset (Finset.range_subset_range.2 (Nat.le_max_right _ _))
            fun i _ hi => if_pos ?_
          have : ¬ i < m := fun h => hi (Finset.mem_range.2 h)
          omega

theorem fraction_nonneg (h : ∀ i, 0 ≤ digits i) (weight : Int) (count : Nat) :
    0 ≤ fraction base digits weight count := by
  refine Finset.sum_nonneg fun i _ => ?_
  have hdigit : (0 : ℚ) ≤ digits i := by exact_mod_cast h i
  split
  · positivity
  · exact le_rfl

/-- What stands after the point is nothing only if all its digits are zero. -/
theorem fraction_eq_zero_iff (hbase : base ≠ 0) (h : ∀ i, 0 ≤ digits i) {weight : Int}
    {count : Nat} : fraction base digits weight count = 0 ↔
      ∀ i < count, weight < (i : Int) → digits i = 0 := by
  have hbase' : (0 : ℚ) < base := by exact_mod_cast Nat.pos_of_ne_zero hbase
  rw [fraction, Finset.sum_eq_zero_iff_of_nonneg]
  · constructor
    · intro hall i hi hweight
      have hzero := hall i (Finset.mem_range.2 hi)
      rw [if_pos hweight, mul_eq_zero, or_iff_left (zpow_ne_zero _ hbase'.ne')] at hzero
      exact_mod_cast hzero
    · intro hall i hi
      by_cases hweight : weight < i
      · rw [if_pos hweight, hall i (Finset.mem_range.1 hi) hweight, Int.cast_zero, zero_mul]
      · exact if_neg hweight
  · intro i _
    have hdigit : (0 : ℚ) ≤ digits i := by exact_mod_cast h i
    split
    · positivity
    · exact le_rfl

/-- The digits after the point are less than one. -/
theorem fraction_lt_one (hbase : base ≠ 0) (h : ∀ i, digits i < base) (weight : Int)
    (count : Nat) : fraction base digits weight count < 1 := by
  have hone : (1 : ℚ) ≤ base := by exact_mod_cast Nat.one_le_iff_ne_zero.2 hbase
  have hpos : (0 : ℚ) < base := by linarith
  -- each digit leaves the distance to one at a power of the base
  have hless : fraction base digits weight count ≤
      1 - (base : ℚ) ^ (min 0 (weight + 1 - count)) := by
    induction count with
    | zero =>
      have hle : (base : ℚ) ^ (min 0 (weight + 1 - (0 : Nat))) ≤ 1 :=
        zpow_le_one_of_nonpos₀ hone (min_le_left _ _)
      rw [fraction, Finset.sum_range_zero]
      linarith
    | succ count ih =>
      rw [fraction_succ]
      by_cases hweight : weight < count
      · have hmin : min 0 (weight + 1 - (count : Int)) = weight - count + 1 := by omega
        have hmin' : min 0 (weight + 1 - ((count + 1 : Nat) : Int)) = weight - count := by
          push_cast
          omega
        rw [hmin, zpow_add_one₀ hpos.ne'] at ih
        rw [if_pos hweight, hmin']
        have hdigit : (digits count : ℚ) ≤ base - 1 := by
          have hlt : digits count ≤ (base : Int) - 1 := by
            have := h count
            omega
          exact_mod_cast hlt
        have hterm := mul_le_mul_of_nonneg_right hdigit (zpow_pos hpos (weight - count)).le
        linarith
      · have hmin : min 0 (weight + 1 - (count : Int)) =
            min 0 (weight + 1 - ((count + 1 : Nat) : Int)) := by
          push_cast
          omega
        rw [if_neg hweight, add_zero, ← hmin]
        exact ih
  have hpow := zpow_pos hpos (min 0 (weight + 1 - (count : Int)))
  linarith

/-- A factor of the base moves the point. -/
theorem numeral_mul_pow (hbase : base ≠ 0) (weight : Int) (count places : Nat) :
    numeral base digits weight count * (base : ℚ) ^ places =
      numeral base digits (weight + places) count := by
  rw [numeral, numeral, Finset.sum_mul]
  refine Finset.sum_congr rfl fun i _ => ?_
  rw [mul_assoc, ← zpow_natCast, ← zpow_add₀ (Nat.cast_ne_zero.2 hbase)]
  congr 2
  ring

end PositionalNumerals
end PgYaap
