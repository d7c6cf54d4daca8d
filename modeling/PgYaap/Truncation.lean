import PgYaap.StoredNumeric
import PgYaap.WrappingAccumulators

/-! # Rationals as integers of 64 bits

What is cut off a rational, beside what rounding does to it, and the integers that an `int64`
holds. -/
namespace PgYaap
namespace Truncation

open StoredNumeric WrappingAccumulators

/-- The integer towards zero. -/
def truncate (x : ℚ) : Int := if 0 ≤ x then ⌊x⌋ else ⌈x⌉

theorem truncate_of_nonneg {x : ℚ} (hx : 0 ≤ x) {k : Int} :
    truncate x = k ↔ (k : ℚ) ≤ x ∧ x < k + 1 := by
  rw [truncate, if_pos hx, Int.floor_eq_iff]

theorem truncate_of_neg {x : ℚ} (hx : x < 0) {k : Int} :
    truncate x = k ↔ (k : ℚ) - 1 < x ∧ x ≤ k := by
  rw [truncate, if_neg (not_le.2 hx), Int.ceil_eq_iff]

theorem truncate_div_of_pos (a : Int) {b : Int} (hb : 0 < b) :
    truncate ((a : ℚ) / b) = a.tdiv b := by
  have hbq : (0 : ℚ) < b := by exact_mod_cast hb
  have hsplit : (a.tmod b : ℚ) + b * a.tdiv b = a := by exact_mod_cast Int.tmod_add_mul_tdiv a b
  rcases le_or_gt 0 a with ha | ha
  · have hnonneg : (0 : ℚ) ≤ a.tmod b := by exact_mod_cast Int.tmod_nonneg b ha
    have hlt : (a.tmod b : ℚ) < b := by exact_mod_cast Int.tmod_lt_of_pos a hb
    have haq : (0 : ℚ) ≤ a := by exact_mod_cast ha
    rw [truncate_of_nonneg (by positivity), le_div_iff₀ hbq, div_lt_iff₀ hbq]
    constructor <;> linarith
  · have hneg : -a.tmod b = (-a).tmod b := (Int.neg_tmod a b).symm
    have hnonneg : (a.tmod b : ℚ) ≤ 0 := by
      have := Int.tmod_nonneg b (show 0 ≤ -a by omega)
      exact_mod_cast (show a.tmod b ≤ 0 by omega)
    have hlt : -(b : ℚ) < a.tmod b := by
      have := Int.tmod_lt_of_pos (-a) hb
      exact_mod_cast (show -b < a.tmod b by omega)
    have haq : (a : ℚ) < 0 := by exact_mod_cast ha
    rw [truncate_of_neg (div_neg_of_neg_of_pos haq hbq), lt_div_iff₀ hbq, div_le_iff₀ hbq]
    constructor <;> linarith

/-- The division of integers cuts the decimals. -/
theorem truncate_div (a b : Int) : truncate ((a : ℚ) / b) = a.tdiv b := by
  rcases lt_trichotomy b 0 with hb | rfl | hb
  · have h := truncate_div_of_pos (-a) (show 0 < -b by omega)
    rwa [Int.neg_tdiv_neg, Int.cast_neg, Int.cast_neg, neg_div_neg_eq] at h
  · simp [truncate]
  · exact truncate_div_of_pos a hb

/-- A rational is rounded towards zero where its decimals are less than a half. -/
theorem roundHalfAwayFromZero_eq_truncate_iff {x : ℚ} :
    roundHalfAwayFromZero x = truncate x ↔ |x - truncate x| < 1 / 2 := by
  rw [roundHalfAwayFromZero]
  rcases le_or_gt 0 x with hx | hx
  · obtain ⟨hle, hlt⟩ := (truncate_of_nonneg hx).1 rfl
    rw [if_pos hx, Int.floor_eq_iff, abs_of_nonneg (by linarith)]
    constructor
    · intro h
      linarith [h.2]
    · intro h
      exact ⟨by linarith, by linarith⟩
  · obtain ⟨hlt, hle⟩ := (truncate_of_neg hx).1 rfl
    rw [if_neg (not_le.2 hx), Int.ceil_eq_iff, abs_of_nonpos (by linarith)]
    constructor
    · intro h
      linarith [h.1]
    · intro h
      exact ⟨by linarith, by linarith⟩

theorem abs_truncate_sub_lt (x : ℚ) : |(truncate x : ℚ) - x| < 1 := by
  rcases le_or_gt 0 x with hx | hx
  · obtain ⟨hle, hlt⟩ := (truncate_of_nonneg hx).1 rfl
    rw [abs_lt]
    constructor <;> linarith
  · obtain ⟨hlt, hle⟩ := (truncate_of_neg hx).1 rfl
    rw [abs_lt]
    constructor <;> linarith

theorem roundHalfAwayFromZero_eq_zero_iff {x : ℚ} : roundHalfAwayFromZero x = 0 ↔ |x| < 1 / 2 := by
  rw [roundHalfAwayFromZero]
  rcases le_or_gt 0 x with hx | hx
  · rw [if_pos hx, Int.floor_eq_iff, abs_of_nonneg hx]
    push_cast
    constructor
    · intro h
      linarith [h.2]
    · intro h
      constructor <;> linarith
  · rw [if_neg (not_le.2 hx), Int.ceil_eq_iff, abs_of_neg hx]
    push_cast
    constructor
    · intro h
      linarith [h.1]
    · intro h
      constructor <;> linarith

/-- Cut before and after a scaling: the same where the decimals do not reach a unit. -/
theorem truncate_mul_eq_iff {x : ℚ} {c : Int} (hc : 0 < c) :
    truncate x * c = truncate (x * c) ↔ |x - truncate x| * c < 1 := by
  have hcq : (0 : ℚ) < c := by exact_mod_cast hc
  rw [eq_comm]
  rcases le_or_gt 0 x with hx | hx
  · obtain ⟨hle, hlt⟩ := (truncate_of_nonneg hx).1 rfl
    rw [truncate_of_nonneg (by positivity), abs_of_nonneg (by linarith)]
    push_cast
    constructor
    · intro h
      linarith [h.2]
    · intro h
      exact ⟨by nlinarith, by linarith⟩
  · obtain ⟨hlt, hle⟩ := (truncate_of_neg hx).1 rfl
    rw [truncate_of_neg (mul_neg_of_neg_of_pos hx hcq), abs_of_nonpos (by linarith)]
    push_cast
    constructor
    · intro h
      linarith [h.1]
    · intro h
      exact ⟨by linarith, by nlinarith⟩

/-! ## The range of `int64` -/

theorem fitsInt64_iff {x : Int} : FitsInt64 (x : ℚ) ↔ wrap 64 x = x := by
  rw [wrap_eq_iff (by norm_num), FitsInt64]
  constructor
  · rintro ⟨hlo, hhi⟩
    have hlo' : (-2 ^ 63 : Int) ≤ x := by exact_mod_cast hlo
    have hhi' : x ≤ (2 ^ 63 - 1 : Int) := by exact_mod_cast hhi
    exact ⟨hlo', by omega⟩
  · rintro ⟨hlo, hhi⟩
    have hhi' : x ≤ (2 ^ 63 - 1 : Int) := by omega
    exact ⟨by exact_mod_cast hlo, by exact_mod_cast hhi'⟩

theorem wrap_eq_wrap_iff {x y : Int} : wrap 64 x = wrap 64 y ↔ x ≡ y [ZMOD 2 ^ 64] := by
  refine ⟨fun h => ?_, wrap_eq_wrap⟩
  exact (wrap_modEq 64 x).symm.trans (h ▸ wrap_modEq 64 y)

end Truncation
end PgYaap
