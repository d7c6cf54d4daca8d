import PgYaap.StoredNumeric
import PgYaap.WrappingAccumulators

/-! # Reading the digits of a stored numeric

Both functions that turn the digits of a stored numeric into a scaled integer compute in 128
bits, with the accumulators kept here. The first one asks at the end whether the result is in
the range of `int64`; the second one, which reads more decimals, does not ask. -/
namespace PgYaap
namespace StoredNumeric

open PositionalNumerals WrappingAccumulators NumericDatum.WellFormed

variable {n : NumericDatum}

/-! ## The functions with their accumulators -/

/-- The loop over the digits of the integer part. -/
def readInteger (n : NumericDatum) : Accum :=
  (List.range (n.weight + 1).toNat).foldl
    (fun accum i =>
      let accum := accum.set 128 (accum.value * 10000)
      accum.set 128 (accum.value + n.digit i)) ⟨0, true⟩

/-- The sign of the result. -/
def signed (n : NumericDatum) (accum : Accum) : Accum :=
  if n.negative then accum.set 128 (-accum.value) else accum

/-- The decimals of the target scale are added, if there are any. -/
def addDecimals (n : NumericDatum) (targetScale : Int) (accum : Accum) : Accum :=
  if 0 < targetScale then
    accum.set 128 (accum.value + (fracDigit n).tdiv (10 ^ (4 - targetScale).toNat))
  else accum

/-- `TryFastNumericToScaledInt64` with what its accumulator went through. -/
def readScaledInt64 (n : NumericDatum) (targetScale : Int) : Option Accum :=
  if n.isSpecial then none
  else if targetScale < 0 ∨ 4 < targetScale then none
  else if 4 < n.dscale ∨ targetScale < n.dscale then none
  else
    let accum := (List.range targetScale.toNat).foldl
      (fun accum _ => accum.set 128 (accum.value * 10)) (readInteger n)
    if 0 < targetScale ∧ (fracDigit n).tmod (10 ^ (4 - targetScale).toNat) ≠ 0 then none
    else
      let accum := addDecimals n targetScale accum
      if ∃ i < n.digits.length, n.weight + 1 + 1 ≤ (i : Int) ∧ n.digit i ≠ 0 then none
      else
        let accum := signed n accum
        if FitsInt64 accum.value then some accum else none

/-- The loop over the digits of the decimals, with the groups of four that are left and the
decimals that are left. A part of a group is taken only if the rest of it is zero. -/
def readGroups (n : NumericDatum) : Nat → Nat → Nat → Accum → Option Accum
  | 0, _, _, accum => some accum
  | groups + 1, i, remainingScale, accum =>
      let groupExp : Int := -1 - i
      let digitIndex := n.weight - groupExp
      let digit := if 0 ≤ digitIndex then n.digit digitIndex.toNat else 0
      let take := min remainingScale 4
      let divisor : Int := 10 ^ (4 - take)
      if digit.tmod divisor ≠ 0 then none
      else
        let contrib := (List.range (remainingScale - take)).foldl
          (fun contrib _ => wrap 64 (contrib * 10)) (digit.tdiv divisor)
        readGroups n groups (i + 1) (remainingScale - take) (accum.set 128 (accum.value + contrib))

/-- `TryFastNumericToScaledWideInt`. -/
def tryFastNumericToScaledWideInt (n : NumericDatum) (targetScale : Int) : Option Accum :=
  if n.isSpecial then none
  else if targetScale < 0 ∨ 18 < targetScale then none
  else
    let scaleFactor := (List.range targetScale.toNat).foldl (fun factor _ => wide (factor * 10)) 1
    let accum := readInteger n
    let accum := accum.set 128 (accum.value * scaleFactor)
    let processedGroups := (targetScale.toNat + 3) / 4
    (readGroups n processedGroups 0 targetScale.toNat accum).bind fun accum =>
      if ∃ i < n.digits.length, n.weight + 1 + processedGroups ≤ (i : Int) ∧ n.digit i ≠ 0 then
        none
      else some (signed n accum)

theorem value_foldl {step : Accum → Nat → Accum} {value : Int → Nat → Int}
    (hstep : ∀ a i, (step a i).value = value a.value i) (items : List Nat) (a : Accum) :
    (items.foldl step a).value = items.foldl value a.value := by
  induction items generalizing a with
  | nil => rfl
  | cons i items ih => rw [List.foldl_cons, List.foldl_cons, ih, hstep]

theorem signed_value (n : NumericDatum) (a : Accum) :
    (signed n a).value = if n.negative then wide (-a.value) else a.value := by
  rw [signed]
  split <;> rfl

theorem addDecimals_value (n : NumericDatum) (targetScale : Int) (a : Accum) :
    (addDecimals n targetScale a).value = if 0 < targetScale then
      wide (a.value + (fracDigit n).tdiv (10 ^ (4 - targetScale).toNat)) else a.value := by
  rw [addDecimals]
  split <;> rfl

/-- The accumulators change nothing. -/
theorem readScaledInt64_value (n : NumericDatum) (targetScale : Int) :
    (readScaledInt64 n targetScale).map Accum.value =
      tryFastNumericToScaledInt64 n targetScale := by
  have hinteger : (readInteger n).value = (List.range (n.weight + 1).toNat).foldl
      (fun accum i => wide (wide (accum * 10000) + n.digit i)) 0 :=
    value_foldl (fun a i => rfl) _ _
  have htens : ((List.range targetScale.toNat).foldl
      (fun accum _ => accum.set 128 (accum.value * 10)) (readInteger n)).value =
      (List.range targetScale.toNat).foldl (fun accum _ => wide (accum * 10))
        ((List.range (n.weight + 1).toNat).foldl
          (fun accum i => wide (wide (accum * 10000) + n.digit i)) 0) := by
    rw [← hinteger]
    exact value_foldl (fun a i => rfl) _ _
  rw [readScaledInt64, tryFastNumericToScaledInt64]
  dsimp only
  rw [← htens, ← fracDigit, ← addDecimals_value, ← signed_value]
  generalize (List.range targetScale.toNat).foldl
    (fun accum _ => accum.set 128 (accum.value * 10)) (readInteger n) = a
  by_cases hspecial : n.isSpecial = true
  · rw [if_pos hspecial, if_pos hspecial, Option.map_none]
  · rw [if_neg hspecial, if_neg hspecial]
    split
    · rfl
    · split
      · rfl
      · split
        · rfl
        · split
          · rfl
          · split <;> rfl

/-! ## The integer part -/

/-- The loop follows Horner's rule. -/
theorem tracks_readInteger (hdigits : ∀ i, 0 ≤ n.digit i) :
    Tracks 128 (horner 10000 n.digit (n.weight + 1).toNat) (readInteger n) := by
  rw [readInteger]
  induction (n.weight + 1).toNat with
  | zero => exact tracks_init (by decide)
  | succ count ih =>
    rw [List.range_succ, List.foldl_append, List.foldl_cons, List.foldl_nil]
    exact (ih.mul (by decide) (by decide)).add (by decide) (hdigits count)

theorem tracks_tens {x : Int} {a : Accum} (h : Tracks 128 x a) (count : Nat) :
    Tracks 128 (x * 10 ^ count) ((List.range count).foldl
      (fun accum _ => accum.set 128 (accum.value * 10)) a) := by
  induction count with
  | zero => rwa [pow_zero, mul_one]
  | succ count ih =>
    rw [List.range_succ, List.foldl_append, List.foldl_cons, List.foldl_nil, pow_succ, ← mul_assoc]
    exact ih.mul (by decide) (by decide)

/-- The sign in front of the result. -/
def signOf (n : NumericDatum) : Int := if n.negative then -1 else 1

/-- What the sign makes of an accumulator that follows the magnitude. -/
theorem signed_of_tracks {x : Int} {a : Accum} (h : Tracks 128 x a) :
    (signed n a).value = wide (signOf n * x) ∧
      ((signed n a).exact = true ↔ x < 2 ^ 127) := by
  rw [signed, signOf]
  by_cases hnegative : n.negative = true
  · rw [if_pos hnegative, if_pos hnegative, neg_one_mul]
    exact h.neg (by decide)
  · rw [if_neg hnegative, if_neg hnegative, one_mul]
    exact ⟨h.value, h.exact⟩

/-! ## At most four decimals -/

/-- **The digits as they are read**: within its scales the first function computes the
residue of the exact result, and reports it where it looks like an `int64`. -/
theorem readScaledInt64_eq (h : n.WellFormed) {scale : Nat} (hscale : scale ≤ 4)
    (hdscale : n.dscale ≤ scale) :
    ∃ a : Accum, a.value = wide (signOf n * magnitude n scale) ∧
      (a.exact = true ↔ magnitude n scale < 2 ^ 127) ∧
      readScaledInt64 n scale = if FitsInt64 a.value then some a else none := by
  obtain ⟨q, hq⟩ := h.pow_dvd_fracDigit hdscale
  have hpos : (0 : Int) < 10 ^ (4 - scale) := by positivity
  have hdiv : fracDigit n / 10 ^ (4 - scale) = q := by
    rw [hq, Int.mul_ediv_cancel_left _ hpos.ne']
  have hq_nonneg : 0 ≤ q := hdiv ▸ Int.ediv_nonneg h.fracDigit_range.1 hpos.le
  have htens := tracks_tens (tracks_readInteger fun i => (h.digit_range i).1) scale
  have hdivisor : (4 - (scale : Int)).toNat = 4 - scale := by omega
  -- without a target scale there are no decimals to add
  have hadd : Tracks 128 (magnitude n scale) (addDecimals n scale
      ((List.range scale).foldl (fun accum _ => accum.set 128 (accum.value * 10))
        (readInteger n))) := by
    rw [magnitude, hdiv, addDecimals]
    by_cases hzero : (0 : Int) < scale
    · rw [if_pos hzero, hdivisor, hq, Int.mul_tdiv_cancel_left _ hpos.ne']
      exact htens.add (by decide) hq_nonneg
    · obtain rfl : scale = 0 := by omega
      have hrange := h.fracDigit_range.2
      obtain rfl : q = 0 := by omega
      rw [if_neg hzero, add_zero]
      exact htens
  refine ⟨_, (signed_of_tracks hadd).1, (signed_of_tracks hadd).2, ?_⟩
  rw [readScaledInt64, if_neg (by rw [h.finite]; exact Bool.false_ne_true), if_neg (by omega),
    if_neg (by omega), hdivisor, hq, Int.mul_tmod_right, if_neg (by simp), if_neg]
  · rfl
  · rintro ⟨i, -, hi, hne⟩
    exact hne (h.digit_eq_zero (hdscale.trans hscale) (by omega))

/-- Outside its scales the first function reports nothing. -/
theorem readScaledInt64_eq_none {targetScale : Int}
    (h : ¬(0 ≤ targetScale ∧ targetScale ≤ 4 ∧ n.dscale ≤ targetScale)) :
    readScaledInt64 n targetScale = none := by
  have hnone := tryFastNumericToScaledInt64_eq_none h
  rw [← readScaledInt64_value, Option.map_eq_none_iff] at hnone
  exact hnone

/-! ## Groups of four decimals -/

/-- The digit at a place, zero before the first one. -/
def digitAt (n : NumericDatum) (place : Int) : Int := if 0 ≤ place then n.digit place.toNat else 0

/-- All digits before a place. -/
def hornerAt (n : NumericDatum) (place : Int) : Int := horner 10000 n.digit place.toNat

theorem hornerAt_succ (place : Int) :
    hornerAt n (place + 1) = hornerAt n place * 10000 + digitAt n place := by
  rw [digitAt, hornerAt, hornerAt]
  by_cases hplace : 0 ≤ place
  · obtain ⟨k, rfl⟩ := Int.eq_ofNat_of_zero_le hplace
    rw [if_pos hplace]
    rfl
  · rw [if_neg hplace, Int.toNat_of_nonpos (by omega), Int.toNat_of_nonpos (by omega)]
    rfl

section Wide

variable (hrange : ∀ i, 0 ≤ n.digit i ∧ n.digit i < 10000)
include hrange

theorem digitAt_range (place : Int) : 0 ≤ digitAt n place ∧ digitAt n place < 10000 := by
  rw [digitAt]
  split
  · exact hrange _
  · exact ⟨le_rfl, by norm_num⟩

omit hrange in
/-- The part of a group that is taken stays an `int64`. -/
theorem contrib_eq {contrib : Int} (hnonneg : 0 ≤ contrib) {count : Nat}
    (hbound : contrib * 10 ^ count < 2 ^ 63) :
    (List.range count).foldl (fun contrib _ => wrap 64 (contrib * 10)) contrib =
      contrib * 10 ^ count := by
  induction count with
  | zero => rw [pow_zero, mul_one]; rfl
  | succ count ih =>
    have hpow : contrib * 10 ^ (count + 1) = contrib * 10 ^ count * 10 := by ring
    have hsmaller : 0 ≤ contrib * 10 ^ count := by positivity
    rw [List.range_succ, List.foldl_append, ih (by omega), List.foldl_cons, List.foldl_nil, hpow]
    exact (wrap_eq_iff (by decide)).2 ⟨by omega, by omega⟩

/-- One turn of the loop over the groups. -/
theorem readGroups_succ (groups i remainingScale : Nat) (accum : Accum) :
    readGroups n (groups + 1) i remainingScale accum =
      if ¬ (10 : Int) ^ (4 - min remainingScale 4) ∣ digitAt n (n.weight + 1 + i) then none
      else readGroups n groups (i + 1) (remainingScale - min remainingScale 4)
        (accum.set 128 (accum.value + (List.range (remainingScale - min remainingScale 4)).foldl
          (fun contrib _ => wrap 64 (contrib * 10))
          (digitAt n (n.weight + 1 + i) / 10 ^ (4 - min remainingScale 4)))) := by
  have hindex : n.weight - (-1 - (i : Int)) = n.weight + 1 + i := by ring
  have hnonneg := (digitAt_range hrange (n.weight + 1 + i)).1
  rw [readGroups]
  dsimp only
  rw [hindex, ← digitAt, Int.tdiv_eq_ediv_of_nonneg hnonneg]
  exact if_congr (not_congr (Int.dvd_iff_tmod_eq_zero.symm)) rfl rfl

/-- **The decimals as they are read**: all digits up to the last group, if the rest of that
group is zero. -/
theorem readGroups_eq (groups : Nat) {i scale : Nat} (hscale : scale ≤ 18)
    (hgroups : groups = (scale + 3) / 4) {a : Accum}
    (h : Tracks 128 (hornerAt n (n.weight + 1 + i) * 10 ^ scale) a) :
    ((10 : Int) ^ (4 * groups - scale) ∣ hornerAt n (n.weight + 1 + i + groups) →
      ∃ a', readGroups n groups i scale a = some a' ∧
        Tracks 128 (hornerAt n (n.weight + 1 + i + groups) / 10 ^ (4 * groups - scale)) a') ∧
    (¬ (10 : Int) ^ (4 * groups - scale) ∣ hornerAt n (n.weight + 1 + i + groups) →
      readGroups n groups i scale a = none) := by
  induction groups generalizing i scale a with
  | zero =>
    obtain rfl : scale = 0 := by omega
    rw [pow_zero, mul_one] at h
    refine ⟨fun _ => ⟨a, rfl, ?_⟩, fun hnot => absurd (one_dvd _) hnot⟩
    rw [Nat.mul_zero, Nat.sub_self, pow_zero, Int.ediv_one, Nat.cast_zero, add_zero]
    exact h
  | succ groups ih =>
    obtain ⟨hnonneg, hlt⟩ := digitAt_range hrange (n.weight + 1 + i)
    have hplace : n.weight + 1 + i + ((groups + 1 : Nat) : Int) =
        n.weight + 1 + ((i + 1 : Nat) : Int) + groups := by push_cast; ring
    have hsucc : hornerAt n (n.weight + 1 + ((i + 1 : Nat) : Int)) =
        hornerAt n (n.weight + 1 + i) * 10000 + digitAt n (n.weight + 1 + i) := by
      rw [← hornerAt_succ]
      push_cast
      rw [add_assoc _ (i : Int)]
    rw [readGroups_succ hrange, hplace]
    rcases Nat.lt_or_ge scale 4 with hpart | hfull
    · -- the last group, of which less than four digits may be taken
      obtain rfl : groups = 0 := by omega
      obtain ⟨drop, hdrop⟩ : ∃ drop, 4 = scale + drop := ⟨4 - scale, by omega⟩
      have hmin : min scale 4 = scale := by omega
      have hleft : 4 - scale = drop := by omega
      have hsplit : hornerAt n (n.weight + 1 + i) * 10000 =
          hornerAt n (n.weight + 1 + i) * 10 ^ scale * 10 ^ drop := by
        rw [mul_assoc, ← pow_add, ← hdrop]
        norm_num
      rw [hmin, Nat.sub_self, zero_add, Nat.mul_one, hleft, Nat.cast_zero, add_zero, hsucc, hsplit,
        Int.dvd_add_right (Dvd.intro_left _ rfl), List.range_zero, List.foldl_nil]
      refine ⟨fun hdvd => ?_, fun hnot => if_pos hnot⟩
      rw [if_neg (not_not.2 hdvd)]
      refine ⟨_, rfl, ?_⟩
      rw [Int.add_ediv_of_dvd_right hdvd, Int.mul_ediv_cancel _ (by positivity)]
      exact h.add (by decide) (Int.ediv_nonneg hnonneg (by positivity))
    · have hmin : min scale 4 = 4 := by omega
      have hleft : 4 * (groups + 1) - scale = 4 * groups - (scale - 4) := by omega
      have hpow : (10 : Int) ^ scale = 10000 * 10 ^ (scale - 4) := by
        rw [show scale = 4 + (scale - 4) by omega, pow_add, Nat.add_sub_cancel_left]
        norm_num
      have hsmall : digitAt n (n.weight + 1 + i) * 10 ^ (scale - 4) < 2 ^ 63 := by
        have hle : (10 : Int) ^ (scale - 4) ≤ 10 ^ 14 := by
          apply pow_le_pow_right₀ (by norm_num)
          omega
        calc digitAt n (n.weight + 1 + i) * 10 ^ (scale - 4)
            ≤ 10000 * 10 ^ 14 := mul_le_mul hlt.le hle (by positivity) (by norm_num)
          _ < 2 ^ 63 := by norm_num
      rw [hmin, Nat.sub_self, pow_zero, if_neg (not_not.2 (one_dvd _)), Int.ediv_one,
        contrib_eq hnonneg hsmall, hleft]
      apply ih (by omega) (by omega)
      rw [hsucc, add_mul, mul_assoc, ← hpow]
      exact h.add (by decide) (mul_nonneg hnonneg (by positivity))

omit hrange in
theorem signOf_mul_self : signOf n * signOf n = 1 := by
  rw [signOf]
  split <;> rfl

omit hrange in
theorem abs_signOf_mul {x : Int} (hx : 0 ≤ x) : |signOf n * x| = x := by
  rw [signOf]
  split
  · rw [neg_one_mul, abs_neg, abs_of_nonneg hx]
  · rw [one_mul, abs_of_nonneg hx]

omit hrange in
/-- The scaled value by the digits up to the last group. -/
theorem value_mul_groups {scale groups : Nat} (hle : scale ≤ 4 * groups) :
    n.value * 10 ^ scale * 10 ^ (4 * groups - scale) = signOf n *
      ((hornerAt n (n.weight + 1 + groups) : ℚ) +
        fraction 10000 n.digit (n.weight + groups) n.digits.length) := by
  have hsign : (if n.negative then (-1 : ℚ) else 1) = signOf n := by
    rw [signOf]
    split <;> norm_num
  have hpow : (10 : ℚ) ^ scale * 10 ^ (4 * groups - scale) = ((10000 : Nat) : ℚ) ^ groups := by
    rw [← pow_add, Nat.add_sub_cancel' hle, pow_mul]
    norm_num
  rw [NumericDatum.value, hsign, mul_assoc, mul_assoc, hpow, numeral_mul_pow (by norm_num),
    numeral_eq_horner_add_fraction (by norm_num) fun i hi => digit_eq_zero_of_length_le hi,
    add_right_comm]
  rfl

/-- Which integer the scaled value is, if it is one. -/
theorem eq_value_mul_pow_iff {scale groups : Nat} (hle : scale ≤ 4 * groups) {x : Int} :
    (x : ℚ) = n.value * 10 ^ scale ↔
      fraction 10000 n.digit (n.weight + groups) n.digits.length = 0 ∧
        (10 : Int) ^ (4 * groups - scale) ∣ hornerAt n (n.weight + 1 + groups) ∧
        x = signOf n * (hornerAt n (n.weight + 1 + groups) / 10 ^ (4 * groups - scale)) := by
  have hvalue := @value_mul_groups n scale groups hle
  have hsign : (signOf n : ℚ) * signOf n = 1 := by exact_mod_cast signOf_mul_self
  have hnonneg := @fraction_nonneg 10000 n.digit (fun i => (hrange i).1) (n.weight + groups)
    n.digits.length
  have hless := @fraction_lt_one 10000 n.digit (by norm_num)
    (fun i => by exact_mod_cast (hrange i).2) (n.weight + groups) n.digits.length
  have hD : (10 : Int) ^ (4 * groups - scale) ≠ 0 := by positivity
  have hD' : (10 : ℚ) ^ (4 * groups - scale) ≠ 0 := by positivity
  generalize fraction 10000 n.digit (n.weight + groups) n.digits.length = f at *
  generalize hornerAt n (n.weight + 1 + groups) = H at *
  rw [← mul_left_inj' hD', hvalue]
  constructor
  · intro hx
    -- the rest is an integer below one
    have hrest : f = ((signOf n * x * 10 ^ (4 * groups - scale) - H : Int) : ℚ) := by
      push_cast
      rw [mul_assoc, hx, ← mul_assoc, hsign]
      ring
    rw [hrest] at hnonneg hless
    have hzero : signOf n * x * 10 ^ (4 * groups - scale) - H = 0 := by
      have hlo : 0 ≤ signOf n * x * 10 ^ (4 * groups - scale) - H := by exact_mod_cast hnonneg
      have hhi : signOf n * x * 10 ^ (4 * groups - scale) - H < 1 := by exact_mod_cast hless
      omega
    have hH : H = signOf n * x * 10 ^ (4 * groups - scale) := by omega
    refine ⟨by rw [hrest, hzero, Int.cast_zero], Dvd.intro_left _ hH.symm, ?_⟩
    rw [hH, Int.mul_ediv_cancel _ hD, ← mul_assoc, signOf_mul_self, one_mul]
  · rintro ⟨rfl, ⟨q, rfl⟩, rfl⟩
    rw [Int.mul_ediv_cancel_left _ hD]
    push_cast
    ring

/-- **The second function reads every value that has no more decimals than the scale**, and
reports the residue of the scaled value in 128 bits. -/
theorem tryFastNumericToScaledWideInt_eq (hfinite : n.isSpecial = false) {scale : Nat}
    (hscale : scale ≤ 18) :
    (∀ x : Int, (x : ℚ) = n.value * 10 ^ scale →
      ∃ a, tryFastNumericToScaledWideInt n scale = some a ∧ a.value = wide x ∧
        (a.exact = true ↔ |x| < 2 ^ 127)) ∧
    ((¬ ∃ x : Int, (x : ℚ) = n.value * 10 ^ scale) →
      tryFastNumericToScaledWideInt n scale = none) := by
  have hle : scale ≤ 4 * ((scale + 3) / 4) := by omega
  have hfactor : (List.range scale).foldl (fun factor _ => wide (factor * 10)) 1 =
      (10 : Int) ^ scale := by
    have hbound : (1 : Int) * 10 ^ scale < 2 ^ 127 := by
      calc (1 : Int) * 10 ^ scale ≤ 1 * 10 ^ 18 := by
            apply mul_le_mul_of_nonneg_left (pow_le_pow_right₀ (by norm_num) hscale) (by norm_num)
        _ < 2 ^ 127 := by norm_num
    rw [foldl_tens_eq (by norm_num) hbound, one_mul]
  have hone : (1 : Int) ≤ 10 ^ scale := one_le_pow₀ (by norm_num)
  have htracks := (tracks_readInteger fun i => (hrange i).1).mul (by decide) hone
  have hread : tryFastNumericToScaledWideInt n scale =
      (readGroups n ((scale + 3) / 4) 0 scale
        ((readInteger n).set 128 ((readInteger n).value * 10 ^ scale))).bind fun accum =>
          if ∃ i < n.digits.length, n.weight + 1 + ((scale + 3) / 4 : Nat) ≤ (i : Int) ∧
            n.digit i ≠ 0 then none
          else some (signed n accum) := by
    rw [tryFastNumericToScaledWideInt, if_neg (by rw [hfinite]; exact Bool.false_ne_true),
      if_neg (by omega)]
    dsimp only
    rw [Int.toNat_natCast, hfactor]
  obtain ⟨hsome, hnone⟩ := readGroups_eq hrange ((scale + 3) / 4) (i := 0) hscale rfl
    (a := (readInteger n).set 128 ((readInteger n).value * 10 ^ scale))
    (by rw [Nat.cast_zero, add_zero]; exact htracks)
  rw [Nat.cast_zero, add_zero] at hsome hnone
  have hrest := @fraction_eq_zero_iff 10000 n.digit (by norm_num) (fun i => (hrange i).1)
    (n.weight + ((scale + 3) / 4 : Nat)) n.digits.length
  rw [hread]
  constructor
  · intro x hx
    obtain ⟨hzero, hdvd, rfl⟩ := (eq_value_mul_pow_iff hrange hle).1 hx
    obtain ⟨a, ha, htracks⟩ := hsome hdvd
    have hnonneg := htracks.nonneg
    refine ⟨signed n a, ?_, (signed_of_tracks htracks).1, ?_⟩
    · rw [ha, Option.bind_some, if_neg]
      rintro ⟨i, hi, hplace, hne⟩
      exact hne (hrest.1 hzero i hi (by omega))
    · rw [(signed_of_tracks htracks).2, abs_signOf_mul hnonneg]
  · intro hnot
    by_cases hdvd : (10 : Int) ^ (4 * ((scale + 3) / 4) - scale) ∣
        hornerAt n (n.weight + 1 + ((scale + 3) / 4 : Nat))
    · obtain ⟨a, ha, -⟩ := hsome hdvd
      rw [ha, Option.bind_some, if_pos]
      by_contra hall
      refine hnot ⟨_, (eq_value_mul_pow_iff hrange hle).2 ⟨hrest.2 fun i hi hplace => ?_, hdvd, rfl⟩⟩
      by_contra hne
      exact hall ⟨i, hi, by omega, hne⟩
    · rw [hnone hdvd, Option.bind_none]

end Wide

/-! ## Success and the exact value -/

/-- What is asked of a reported result: it is the scaled value, and no result on the way was
out of range. -/
def ReportsExactly (n : NumericDatum) (targetScale : Int) (reported : Option Accum) : Prop :=
  ∀ a, reported = some a → (a.value : ℚ) = n.value * 10 ^ targetScale ∧ a.exact = true

/-- The scaled value is past 128 bits, and its residue passes for an `int64`. -/
structure WrapsIntoInt64 (n : NumericDatum) (targetScale : Int) : Prop where
  finite : n.isSpecial = false
  scale : 0 ≤ targetScale ∧ targetScale ≤ 4
  decimals : n.dscale ≤ targetScale
  wraps : ∃ x : Int, (x : ℚ) = n.value * 10 ^ targetScale ∧ 2 ^ 127 ≤ |x| ∧ FitsInt64 (wide x)

/-- The scaled value is an integer past 128 bits. -/
structure WrapsWide (n : NumericDatum) (targetScale : Int) : Prop where
  finite : n.isSpecial = false
  scale : 0 ≤ targetScale ∧ targetScale ≤ 18
  wraps : ∃ x : Int, (x : ℚ) = n.value * 10 ^ targetScale ∧ 2 ^ 127 ≤ |x|

theorem reportsExactly_none {targetScale : Int} : ReportsExactly n targetScale none :=
  fun _ h => nomatch h

/-- A reported residue is the exact result exactly if nothing was lost. -/
theorem reportsExactly_some_iff {targetScale x : Int} {a : Accum} (hvalue : a.value = wide x)
    (hexact : a.exact = true ↔ |x| < 2 ^ 127) (hx : (x : ℚ) = n.value * 10 ^ targetScale) :
    ReportsExactly n targetScale (some a) ↔ |x| < 2 ^ 127 := by
  constructor
  · intro h
    exact hexact.1 (h a rfl).2
  · rintro hless b hb
    obtain rfl := Option.some.inj hb
    refine ⟨?_, hexact.2 hless⟩
    have hbounds := abs_lt.1 hless
    rw [hvalue, wide_eq hbounds.1.le hbounds.2, hx]

theorem reportsExactly_int64_iff (h : n.isSpecial = false → n.WellFormed) (targetScale : Int) :
    ReportsExactly n targetScale (readScaledInt64 n targetScale) ↔
      ¬ WrapsIntoInt64 n targetScale := by
  by_cases hread : n.isSpecial = false ∧ 0 ≤ targetScale ∧ targetScale ≤ 4 ∧
      n.dscale ≤ targetScale
  · obtain ⟨hfinite, hpos, hle, hdscale⟩ := hread
    obtain ⟨scale, rfl⟩ := Int.eq_ofNat_of_zero_le hpos
    have hwf := h hfinite
    obtain ⟨a, hvalue, hexact, heq⟩ := readScaledInt64_eq hwf (show scale ≤ 4 by omega)
      (show n.dscale ≤ scale by omega)
    have hscaled : ((signOf n * magnitude n scale : Int) : ℚ) = n.value * 10 ^ (scale : Int) := by
      rw [zpow_natCast, hwf.value_mul_pow (by omega) (by omega), signOf]
      push_cast
      split <;> norm_num
    have hnonneg : 0 ≤ magnitude n scale :=
      add_nonneg (mul_nonneg (horner_nonneg (fun i => (hwf.digit_range i).1) _) (by positivity))
        (Int.ediv_nonneg hwf.fracDigit_range.1 (by positivity))
    have habs := abs_signOf_mul (n := n) hnonneg
    rw [heq]
    by_cases hfits : FitsInt64 a.value
    · rw [if_pos hfits, reportsExactly_some_iff hvalue (by rw [habs, hexact]) hscaled]
      constructor
      · rintro hless ⟨-, -, -, x, hx, hbig, -⟩
        obtain rfl : x = signOf n * magnitude n scale := by exact_mod_cast hx.trans hscaled.symm
        omega
      · intro hnot
        by_contra hbig
        exact hnot ⟨hfinite, ⟨hpos, hle⟩, hdscale, _, hscaled, not_lt.1 hbig, hvalue ▸ hfits⟩
    · rw [if_neg hfits]
      refine iff_of_true reportsExactly_none ?_
      rintro ⟨-, -, -, x, hx, -, hpasses⟩
      obtain rfl : x = signOf n * magnitude n scale := by exact_mod_cast hx.trans hscaled.symm
      exact hfits (hvalue ▸ hpasses)
  · have hnone : readScaledInt64 n targetScale = none := by
      by_cases hspecial : n.isSpecial = true
      · rw [readScaledInt64, if_pos hspecial]
      · apply readScaledInt64_eq_none
        intro hscales
        exact hread ⟨Bool.not_eq_true _ ▸ hspecial, hscales⟩
    rw [hnone]
    refine iff_of_true reportsExactly_none ?_
    rintro ⟨hfinite, hscale, hdecimals, -⟩
    exact hread ⟨hfinite, hscale.1, hscale.2, hdecimals⟩

theorem reportsExactly_wide_iff (h : n.isSpecial = false → n.WellFormed) (targetScale : Int) :
    ReportsExactly n targetScale (tryFastNumericToScaledWideInt n targetScale) ↔
      ¬ WrapsWide n targetScale := by
  by_cases hread : n.isSpecial = false ∧ 0 ≤ targetScale ∧ targetScale ≤ 18
  · obtain ⟨hfinite, hpos, hle⟩ := hread
    obtain ⟨scale, rfl⟩ := Int.eq_ofNat_of_zero_le hpos
    obtain ⟨hsome, hnone⟩ := tryFastNumericToScaledWideInt_eq (h hfinite).digit_range hfinite
      (show scale ≤ 18 by omega)
    by_cases hint : ∃ x : Int, (x : ℚ) = n.value * 10 ^ scale
    · obtain ⟨x, hx⟩ := hint
      obtain ⟨a, ha, hvalue, hexact⟩ := hsome x hx
      rw [← zpow_natCast] at hx
      rw [ha, reportsExactly_some_iff hvalue hexact hx]
      constructor
      · rintro hless ⟨-, -, y, hy, hbig⟩
        obtain rfl : y = x := by exact_mod_cast hy.trans hx.symm
        omega
      · intro hnot
        by_contra hbig
        exact hnot ⟨hfinite, ⟨hpos, hle⟩, x, hx, not_lt.1 hbig⟩
    · rw [hnone hint]
      refine iff_of_true reportsExactly_none ?_
      rintro ⟨-, -, x, hx, -⟩
      rw [zpow_natCast] at hx
      exact hint ⟨x, hx⟩
  · have hnone : tryFastNumericToScaledWideInt n targetScale = none := by
      rw [tryFastNumericToScaledWideInt]
      by_cases hspecial : n.isSpecial = true
      · rw [if_pos hspecial]
      · rw [if_neg hspecial, if_pos]
        by_contra hscale
        exact hread ⟨Bool.not_eq_true _ ▸ hspecial, by omega, by omega⟩
    rw [hnone]
    refine iff_of_true reportsExactly_none ?_
    rintro ⟨hfinite, hscale, -⟩
    exact hread ⟨hfinite, hscale⟩

/-- **When reading the digits is exact.** A success of the first function is exact unless the
scaled value is past 128 bits and its residue passes for an `int64`; a success of the second
one is exact unless the scaled value is past 128 bits. -/
theorem numeric_reading_exact (h : n.isSpecial = false → n.WellFormed) (targetScale : Int) :
    (ReportsExactly n targetScale (readScaledInt64 n targetScale) ↔
      ¬ WrapsIntoInt64 n targetScale) ∧
    (ReportsExactly n targetScale (tryFastNumericToScaledWideInt n targetScale) ↔
      ¬ WrapsWide n targetScale) :=
  ⟨reportsExactly_int64_iff h targetScale, reportsExactly_wide_iff h targetScale⟩

/-- A power of ten thousand. -/
def powerOfBase (weight : Int16) : NumericDatum := ⟨0, weight, [1]⟩

theorem powerOfBase_digit (weight : Int16) (i : Nat) :
    (powerOfBase weight).digit i = if i = 0 then 1 else 0 := by
  cases i with
  | zero => rfl
  | succ i => rfl

theorem powerOfBase_weight (weight : Int16) : (powerOfBase weight).weight = weight.toInt := by
  have hlong : (powerOfBase weight).headerIsShort = false := by
    show decide ((0 : UInt16) &&& 0x8000 ≠ 0) = false
    decide
  rw [NumericDatum.weight, hlong, if_neg Bool.false_ne_true]
  rfl

theorem powerOfBase_wellFormed {weight : Int16} (hweight : 0 ≤ weight.toInt) :
    (powerOfBase weight).WellFormed := by
  have hfinite : (powerOfBase weight).isSpecial = false := by
    show decide ((0 : UInt16) &&& 0xC000 = 0xC000) = false
    decide
  refine ⟨hfinite, fun i => ?_, fun i hi => ?_⟩
  · rw [powerOfBase_digit]
    split <;> norm_num
  · rw [powerOfBase_weight] at hi
    have hpos : i ≠ 0 := by omega
    rw [powerOfBase_digit, if_neg hpos]
    exact dvd_zero _

theorem powerOfBase_value (weight : Int16) :
    (powerOfBase weight).value = (10000 : ℚ) ^ weight.toInt := by
  have hdigit : (powerOfBase weight).digit 0 = 1 := rfl
  have hlength : (powerOfBase weight).digits.length = 1 := rfl
  have hpositive : (powerOfBase weight).negative = false := by
    show (if decide ((0 : UInt16) &&& 0x8000 ≠ 0) then decide ((0 : UInt16) &&& 0x2000 ≠ 0)
      else decide ((0 : UInt16) &&& 0xC000 = 0x4000)) = false
    decide
  rw [NumericDatum.value, hpositive, powerOfBase_weight, hlength, numeral, Finset.sum_range_one,
    hdigit]
  simp

theorem numeric_reading_exact_one :
    (ReportsExactly (powerOfBase 0) 0 (readScaledInt64 (powerOfBase 0) 0) ↔
      ¬ WrapsIntoInt64 (powerOfBase 0) 0) ∧
    (ReportsExactly (powerOfBase 0) 0 (tryFastNumericToScaledWideInt (powerOfBase 0) 0) ↔
      ¬ WrapsWide (powerOfBase 0) 0) :=
  numeric_reading_exact (fun _ => powerOfBase_wellFormed (by decide)) 0

/-- **A large power of ten is read as zero**: its last 128 bits are. -/
theorem not_reportsExactly : ¬ ∀ (n : NumericDatum) (targetScale : Int),
    (n.isSpecial = false → n.WellFormed) →
      ReportsExactly n targetScale (readScaledInt64 n targetScale) := by
  intro hall
  have hread : readScaledInt64 (powerOfBase 32) 0 = some ⟨0, false⟩ := by decide +kernel
  have hexact := hall (powerOfBase 32) 0 (fun _ => powerOfBase_wellFormed (by decide)) _ hread
  have hvalue := hexact.1
  rw [powerOfBase_value, zpow_zero, mul_one, Int.cast_zero] at hvalue
  exact zpow_ne_zero _ (by norm_num) hvalue.symm

end StoredNumeric
end PgYaap
