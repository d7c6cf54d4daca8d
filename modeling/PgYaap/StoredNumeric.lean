import PgYaap.PositionalNumerals

/-! # Stored numerics as scaled integers

A numeric on disk has a short or a long header and digits of base 10000. The scan turns it
into an integer, the value times a power of ten, by reading the digits
(`TryFastNumericToScaledInt64`) or, where that fails, by multiplying with a hundred. -/
namespace PgYaap
namespace StoredNumeric

open PositionalNumerals

/-! ## The stored form -/

/-- The header, the second word of a long header, and the digits. -/
structure NumericDatum where
  header : UInt16
  weightWord : Int16
  digits : List Int16
  deriving DecidableEq

namespace NumericDatum

variable (n : NumericDatum)

/-- `VolVecNumericHeaderIsShort`. -/
def headerIsShort : Bool := n.header &&& 0x8000 ≠ 0

/-- `VolVecNumericIsSpecial`: NaN and the infinities. -/
def isSpecial : Bool := n.header &&& 0xC000 = 0xC000

/-- `VolVecNumericDscale`: the number of decimals. -/
def dscale : Nat :=
  if n.headerIsShort then ((n.header &&& 0x1F80) >>> 7).toNat else (n.header &&& 0x3FFF).toNat

/-- `VolVecNumericWeight`. -/
def weight : Int :=
  if n.headerIsShort then
    if n.header &&& 0x0040 ≠ 0 then (n.header &&& 0x003F).toNat - 64
    else (n.header &&& 0x003F).toNat
  else n.weightWord.toInt

/-- `VolVecNumericNegative`. -/
def negative : Bool :=
  if n.headerIsShort then n.header &&& 0x2000 ≠ 0 else n.header &&& 0xC000 = 0x4000

/-- A digit, zero past the stored ones. -/
def digit (i : Nat) : Int := (n.digits.getD i 0).toInt

/-- The value of a finite numeric. -/
def value : ℚ :=
  (if n.negative then -1 else 1) * numeral 10000 n.digit n.weight n.digits.length

/-- What numerics on disk are: finite, of digits of base 10000, and without digits past
their decimals. -/
structure WellFormed : Prop where
  finite : n.isSpecial = false
  digit_range : ∀ i, 0 ≤ n.digit i ∧ n.digit i < 10000
  no_more_decimals : ∀ i : Nat, n.weight < i →
    (10 : Int) ^ (4 * (i - n.weight) - n.dscale).toNat ∣ n.digit i

end NumericDatum

/-! ## Scaling -/

/-- The range of `int64`. -/
def FitsInt64 (x : ℚ) : Prop := -2 ^ 63 ≤ x ∧ x ≤ 2 ^ 63 - 1

instance (x : ℚ) : Decidable (FitsInt64 x) := inferInstanceAs (Decidable (_ ∧ _))

/-- An operation on `NumericWideInt`, of 128 bits. -/
def wide (x : Int) : Int := x.bmod (2 ^ 128)

/-- `TryFastNumericToScaledInt64`; `none` stands for `false`. -/
def tryFastNumericToScaledInt64 (n : NumericDatum) (targetScale : Int) : Option Int :=
  if n.isSpecial then none
  else if targetScale < 0 ∨ 4 < targetScale then none
  else if 4 < n.dscale ∨ targetScale < n.dscale then none
  else
    let accum := (List.range (n.weight + 1).toNat).foldl
      (fun accum i => wide (wide (accum * 10000) + n.digit i)) 0
    let accum := (List.range targetScale.toNat).foldl (fun accum _ => wide (accum * 10)) accum
    let fracIndex := n.weight + 1
    let fracDigit := if 0 ≤ fracIndex then n.digit fracIndex.toNat else 0
    let divisor : Int := 10 ^ (4 - targetScale).toNat
    if 0 < targetScale ∧ fracDigit.tmod divisor ≠ 0 then none
    else
      let accum := if 0 < targetScale then wide (accum + fracDigit.tdiv divisor) else accum
      if ∃ i < n.digits.length, fracIndex + 1 ≤ (i : Int) ∧ n.digit i ≠ 0 then none
      else
        let accum := if n.negative then wide (-accum) else accum
        if FitsInt64 accum then some accum else none

/-- `GetNumericScaleFromTypmod`, with `DEFAULT_NUMERIC_SCALE` for a column without one. -/
def getNumericScaleFromTypmod (typmod : Int) : Int :=
  if typmod < 4 then 2 else ((((typmod - 4) % 2048).toNat ^^^ 1024 : Nat) : Int) - 1024

/-- The nearest integer, halves away from zero. -/
def roundHalfAwayFromZero (x : ℚ) : Int := if 0 ≤ x then ⌊x + 1 / 2⌋ else ⌈x - 1 / 2⌉

/-- `numeric_int8`. -/
def numericInt8 (x : ℚ) : Except String Int :=
  if FitsInt64 (roundHalfAwayFromZero x) then .ok (roundHalfAwayFromZero x)
  else .error "bigint out of range"

/-- The case of the deformer for numerics: the digits, or the product with a hundred. -/
def deformNumeric (typmod : Int) (n : NumericDatum) : Except String Int :=
  match tryFastNumericToScaledInt64 n (getNumericScaleFromTypmod typmod) with
  | some scaled => .ok scaled
  | none =>
    if n.isSpecial then .error "cannot convert NaN to bigint" else numericInt8 (n.value * 100)

/-! ## The digits -/

theorem wide_eq {x : Int} (hlo : -2 ^ 127 ≤ x) (hhi : x < 2 ^ 127) : wide x = x := by
  rw [wide]
  apply Int.bmod_eq_of_le <;> omega

theorem wide_eq_of_fitsInt64 {x : Int} (h : FitsInt64 x) : wide x = x := by
  obtain ⟨hlo, hhi⟩ := h
  have hlo' : -2 ^ 63 ≤ x := by exact_mod_cast hlo
  have hhi' : x ≤ 2 ^ 63 - 1 := by exact_mod_cast hhi
  exact wide_eq (by omega) (by omega)

/-- Outside its range of scales and decimals the digits are not read. -/
theorem tryFastNumericToScaledInt64_eq_none {n : NumericDatum} {targetScale : Int}
    (h : ¬(0 ≤ targetScale ∧ targetScale ≤ 4 ∧ n.dscale ≤ targetScale)) :
    tryFastNumericToScaledInt64 n targetScale = none := by
  rw [tryFastNumericToScaledInt64]
  by_cases hspecial : n.isSpecial = true
  · exact if_pos hspecial
  · rw [if_neg hspecial]
    by_cases hscale : targetScale < 0 ∨ 4 < targetScale
    · exact if_pos hscale
    · rw [if_neg hscale]
      exact if_pos (Or.inr (by omega))

variable {n : NumericDatum}

theorem digit_eq_zero_of_length_le {i : Nat} (h : n.digits.length ≤ i) : n.digit i = 0 := by
  rw [NumericDatum.digit, List.getD_eq_default _ _ h]
  rfl

/-- The integer part, as long as it stays in range. -/
theorem foldl_digits_eq_horner (hdigits : ∀ i, 0 ≤ n.digit i) {count : Nat}
    (hbound : horner 10000 n.digit count < 2 ^ 127) :
    (List.range count).foldl (fun accum i => wide (wide (accum * 10000) + n.digit i)) 0 =
      horner 10000 n.digit count := by
  induction count with
  | zero => rfl
  | succ count ih =>
    have hnonneg : 0 ≤ horner 10000 n.digit count := horner_nonneg hdigits count
    have hdigit := hdigits count
    have hsucc : horner 10000 n.digit (count + 1) =
        horner 10000 n.digit count * 10000 + n.digit count := rfl
    rw [List.range_succ, List.foldl_append, ih (by omega), List.foldl_cons, List.foldl_nil,
      wide_eq (x := horner 10000 n.digit count * 10000) (by omega) (by omega),
      wide_eq (by omega) (by omega), hsucc]

theorem foldl_tens_eq {x : Int} (hx : 0 ≤ x) {count : Nat} (hbound : x * 10 ^ count < 2 ^ 127) :
    (List.range count).foldl (fun accum _ => wide (accum * 10)) x = x * 10 ^ count := by
  induction count with
  | zero => simp
  | succ count ih =>
    have hpow : x * 10 ^ (count + 1) = x * 10 ^ count * 10 := by ring
    have hnonneg : 0 ≤ x * 10 ^ count := by positivity
    rw [List.range_succ, List.foldl_append, ih (by omega), List.foldl_cons, List.foldl_nil, hpow,
      wide_eq (by omega) (by omega)]

namespace NumericDatum.WellFormed

/-- The digit with the first four decimals. -/
def fracDigit (n : NumericDatum) : Int :=
  if 0 ≤ n.weight + 1 then n.digit (n.weight + 1).toNat else 0

theorem digit_eq_zero (h : n.WellFormed) (hdscale : n.dscale ≤ 4) {i : Nat}
    (hi : n.weight + 1 < i) : n.digit i = 0 := by
  have hdvd := h.no_more_decimals i (by omega)
  have hfour : (10 : Int) ^ 4 ∣ n.digit i := (pow_dvd_pow 10 (by omega)).trans hdvd
  exact Int.eq_zero_of_dvd_of_nonneg_of_lt (h.digit_range i).1 (h.digit_range i).2 hfour

theorem pow_dvd_fracDigit (h : n.WellFormed) {scale : Nat} (hdscale : n.dscale ≤ scale) :
    (10 : Int) ^ (4 - scale) ∣ fracDigit n := by
  rw [fracDigit]
  by_cases hpos : 0 ≤ n.weight + 1
  · rw [if_pos hpos]
    obtain ⟨m, hm⟩ := Int.eq_ofNat_of_zero_le hpos
    rw [hm, Int.toNat_natCast]
    exact (pow_dvd_pow 10 (by omega)).trans (h.no_more_decimals m (by omega))
  · rw [if_neg hpos]
    exact dvd_zero _

theorem fracDigit_range (h : n.WellFormed) : 0 ≤ fracDigit n ∧ fracDigit n < 10000 := by
  rw [fracDigit]
  by_cases hpos : 0 ≤ n.weight + 1
  · rw [if_pos hpos]
    exact h.digit_range _
  · rw [if_neg hpos]
    exact ⟨le_rfl, by norm_num⟩

/-- The value of a numeric with at most four decimals. -/
theorem value_eq (h : n.WellFormed) (hdscale : n.dscale ≤ 4) :
    n.value = (if n.negative then -1 else 1) *
      (horner 10000 n.digit (n.weight + 1).toNat + (fracDigit n : ℚ) / 10000) := by
  rw [NumericDatum.value, numeral_eq_horner_add (by norm_num)
    (fun i hi => digit_eq_zero_of_length_le hi) fun i hi => h.digit_eq_zero hdscale hi]
  rfl

/-- The value times a power of ten, as an integer. -/
def magnitude (n : NumericDatum) (scale : Nat) : Int :=
  horner 10000 n.digit (n.weight + 1).toNat * 10 ^ scale + fracDigit n / 10 ^ (4 - scale)

theorem value_mul_pow (h : n.WellFormed) {scale : Nat} (hscale : scale ≤ 4)
    (hdscale : n.dscale ≤ scale) :
    n.value * 10 ^ scale = (if n.negative then -1 else 1) * (magnitude n scale : ℚ) := by
  obtain ⟨q, hq⟩ := h.pow_dvd_fracDigit hdscale
  have hdiv : fracDigit n / 10 ^ (4 - scale) = q := by
    rw [hq, Int.mul_ediv_cancel_left _ (by positivity)]
  have hfour : (10 : ℚ) ^ (4 - scale) * 10 ^ scale = 10000 := by
    rw [← pow_add, Nat.sub_add_cancel hscale]
    norm_num
  rw [h.value_eq (hdscale.trans hscale), magnitude, hdiv, hq, mul_assoc]
  push_cast
  rw [add_mul, div_mul_eq_mul_div, mul_right_comm, hfour, mul_div_cancel_left₀ _ (by norm_num)]

theorem magnitude_bounds (h : n.WellFormed) {scale : Nat} (hscale : scale ≤ 4)
    (hdscale : n.dscale ≤ scale) (hfits : FitsInt64 (n.value * 10 ^ scale)) :
    0 ≤ magnitude n scale ∧ magnitude n scale ≤ 2 ^ 63 := by
  have hhorner : 0 ≤ horner 10000 n.digit (n.weight + 1).toNat :=
    horner_nonneg (fun i => (h.digit_range i).1) _
  have hfrac : 0 ≤ fracDigit n / 10 ^ (4 - scale) :=
    Int.ediv_nonneg h.fracDigit_range.1 (by positivity)
  refine ⟨add_nonneg (mul_nonneg hhorner (by positivity)) hfrac, ?_⟩
  rw [h.value_mul_pow hscale hdscale] at hfits
  obtain ⟨hlo, hhi⟩ := hfits
  by_cases hnegative : n.negative = true
  · rw [if_pos hnegative, neg_one_mul, neg_le_neg_iff] at hlo
    exact_mod_cast hlo
  · rw [if_neg hnegative, one_mul] at hhi
    have hle : (magnitude n scale : ℚ) ≤ ((2 ^ 63 : Int) : ℚ) := by
      push_cast
      linarith
    exact_mod_cast hle

/-- **The digits give the value** times the power of ten, within four decimals and the range
of `int64`. -/
theorem tryFastNumericToScaledInt64_eq (h : n.WellFormed) {scale : Nat} (hscale : scale ≤ 4)
    (hdscale : n.dscale ≤ scale) (hfits : FitsInt64 (n.value * 10 ^ scale)) :
    ∃ scaled : Int, tryFastNumericToScaledInt64 n scale = some scaled ∧
      (scaled : ℚ) = n.value * 10 ^ scale := by
  obtain ⟨hnonneg, hle⟩ := h.magnitude_bounds hscale hdscale hfits
  have hvalue := h.value_mul_pow hscale hdscale
  have hhorner : 0 ≤ horner 10000 n.digit (n.weight + 1).toNat :=
    horner_nonneg (fun i => (h.digit_range i).1) _
  obtain ⟨q, hq⟩ := h.pow_dvd_fracDigit hdscale
  have hpos : (0 : Int) < 10 ^ (4 - scale) := by positivity
  have hdiv : fracDigit n / 10 ^ (4 - scale) = q := by
    rw [hq, Int.mul_ediv_cancel_left _ hpos.ne']
  have hq_nonneg : 0 ≤ q := hdiv ▸ Int.ediv_nonneg h.fracDigit_range.1 hpos.le
  have hmagnitude : magnitude n scale =
      horner 10000 n.digit (n.weight + 1).toNat * 10 ^ scale + q := by rw [magnitude, hdiv]
  have hten : horner 10000 n.digit (n.weight + 1).toNat ≤
      horner 10000 n.digit (n.weight + 1).toNat * 10 ^ scale :=
    le_mul_of_one_le_right hhorner (one_le_pow₀ (by norm_num))
  refine ⟨(if n.negative then -1 else 1) * magnitude n scale, ?_, ?_⟩
  · have hdivisor : (4 - (scale : Int)).toNat = 4 - scale := by omega
    rw [tryFastNumericToScaledInt64, if_neg (by rw [h.finite]; exact Bool.false_ne_true),
      if_neg (by omega), if_neg (by omega)]
    dsimp only
    rw [foldl_digits_eq_horner (fun i => (h.digit_range i).1) (by omega), Int.toNat_natCast,
      foldl_tens_eq hhorner (by omega), hdivisor, ← fracDigit, hq,
      Int.mul_tmod_right, Int.mul_tdiv_cancel_left _ hpos.ne', if_neg (by simp), if_neg]
    · have haccum : (if (0 : Int) < scale then
          wide (horner 10000 n.digit (n.weight + 1).toNat * 10 ^ scale + q)
          else horner 10000 n.digit (n.weight + 1).toNat * 10 ^ scale) = magnitude n scale := by
        by_cases hzero : (0 : Int) < scale
        · rw [if_pos hzero, wide_eq (by omega) (by omega), hmagnitude]
        · obtain rfl : scale = 0 := by omega
          have hrange := h.fracDigit_range.2
          rw [if_neg hzero, hmagnitude]
          omega
      rw [haccum]
      by_cases hnegative : n.negative = true
      · rw [if_pos hnegative, if_pos hnegative, wide_eq (by omega) (by omega), neg_one_mul,
          if_pos]
        rw [hvalue, if_pos hnegative, neg_one_mul] at hfits
        exact_mod_cast hfits
      · rw [if_neg hnegative, if_neg hnegative, one_mul, if_pos]
        rw [hvalue, if_neg hnegative, one_mul] at hfits
        exact hfits
    · rintro ⟨i, -, hi, hne⟩
      exact hne (h.digit_eq_zero (hdscale.trans hscale) (by omega))
  · rw [hvalue]
    push_cast
    split <;> norm_num

end NumericDatum.WellFormed

/-! ## The product with a hundred -/

theorem abs_roundHalfAwayFromZero_sub_le (x : ℚ) : |(roundHalfAwayFromZero x : ℚ) - x| ≤ 1 / 2 := by
  rw [roundHalfAwayFromZero, abs_le]
  by_cases hpos : 0 ≤ x
  · rw [if_pos hpos]
    have hle := Int.floor_le (x + 1 / 2)
    have hlt := Int.lt_floor_add_one (x + 1 / 2)
    constructor <;> linarith
  · rw [if_neg hpos]
    have hle := Int.le_ceil (x - 1 / 2)
    have hlt := Int.ceil_lt_add_one (x - 1 / 2)
    constructor <;> linarith

theorem roundHalfAwayFromZero_intCast (k : Int) : roundHalfAwayFromZero (k : ℚ) = k := by
  have hle := abs_roundHalfAwayFromZero_sub_le (k : ℚ)
  have hlt : |roundHalfAwayFromZero (k : ℚ) - k| < 1 := by
    have : |(roundHalfAwayFromZero (k : ℚ) : ℚ) - k| < 1 := hle.trans_lt (by norm_num)
    exact_mod_cast this
  exact sub_eq_zero.1 (Int.abs_lt_one_iff.1 hlt)

/-- The rounded hundredfold is another multiple of the value only for zero. -/
theorem roundHalfAwayFromZero_eq_mul_zpow_iff {x : ℚ} {e : Int} :
    (roundHalfAwayFromZero (x * 100) : ℚ) = x * 10 ^ e ↔
      x = 0 ∨ (e = 2 ∧ (x * 100).den = 1) := by
  have hround := abs_roundHalfAwayFromZero_sub_le (x * 100)
  constructor
  · intro heq
    by_cases hzero : roundHalfAwayFromZero (x * 100) = 0
    · left
      rw [hzero, Int.cast_zero] at heq
      exact (mul_eq_zero.1 heq.symm).resolve_right (zpow_ne_zero e (by norm_num))
    · right
      have hone : (1 : ℚ) ≤ |(roundHalfAwayFromZero (x * 100) : ℚ)| := by
        exact_mod_cast Int.one_le_abs hzero
      have htriangle := abs_sub_abs_le_abs_sub (roundHalfAwayFromZero (x * 100) : ℚ) (x * 100)
      have htriangle' := abs_sub_abs_le_abs_sub (x * 100) (roundHalfAwayFromZero (x * 100) : ℚ)
      rw [abs_sub_comm] at htriangle'
      have hscaled : |(roundHalfAwayFromZero (x * 100) : ℚ)| = |x * 100| * 10 ^ (e - 2) := by
        have hsplit : (10 : ℚ) ^ e = 100 * 10 ^ (e - 2) := by
          rw [zpow_sub₀ (by norm_num)]
          norm_num
          ring
        rw [heq, hsplit, ← mul_assoc, abs_mul,
          abs_of_pos (zpow_pos (by norm_num : (0 : ℚ) < 10) (e - 2))]
      have hnonneg := abs_nonneg (x * 100)
      rcases lt_trichotomy e 2 with hlt | htwo | hgt
      · have hle : (10 : ℚ) ^ (e - 2) ≤ 10 ^ (-1 : Int) :=
          zpow_le_zpow_right₀ (by norm_num) (by omega)
        have htenth : |(roundHalfAwayFromZero (x * 100) : ℚ)| ≤ |x * 100| * 10 ^ (-1 : Int) :=
          hscaled.trans_le (mul_le_mul_of_nonneg_left hle hnonneg)
        rw [zpow_neg_one] at htenth
        linarith
      · refine ⟨htwo, ?_⟩
        rw [htwo] at heq
        have hint : x * 100 = (roundHalfAwayFromZero (x * 100) : ℚ) := by
          rw [heq]
          norm_num
        rw [hint]
        exact Rat.den_intCast _
      · have hle : (10 : ℚ) ^ (1 : Int) ≤ 10 ^ (e - 2) :=
          zpow_le_zpow_right₀ (by norm_num) (by omega)
        have hten : |x * 100| * 10 ^ (1 : Int) ≤ |(roundHalfAwayFromZero (x * 100) : ℚ)| :=
          (mul_le_mul_of_nonneg_left hle hnonneg).trans_eq hscaled.symm
        rw [zpow_one] at hten
        linarith
  · rintro (rfl | ⟨rfl, hden⟩)
    · norm_num [roundHalfAwayFromZero]
    · have hint : x * 100 = ((x * 100).num : ℚ) := (Rat.den_eq_one_iff _).1 hden |>.symm
      rw [hint, roundHalfAwayFromZero_intCast, ← hint]
      norm_num

end StoredNumeric
end PgYaap
