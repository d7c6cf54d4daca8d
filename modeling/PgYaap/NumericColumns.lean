import PgYaap.HeapColumnsRoundTrip
import PgYaap.NumericReading

/-! # Numeric columns of a scan

The deformer writes a numeric as an integer, and the operators above take that integer for the
value times a power of ten, by the scale of the column. The digits are read with that scale.
Where they are not read, because of the scale, the decimals or the size, the value is multiplied
with a hundred, whatever the scale. Of a compressed or out-of-line numeric the digits are read
in place, and only the product has the value. -/
namespace PgYaap
namespace NumericColumns

open ColumnSlots HashJoinProbe HeapColumns StoredNumeric

/-! ## The deformer -/

/-- The numeric of an attribute; of a compressed or out-of-line one, also the bytes in its
place, taken for a header and digits. -/
inductive NumericAttribute
  | inline (n : NumericDatum)
  | toasted (inPlace n : NumericDatum)

/-- What `VARDATA_ANY` points to. -/
def NumericAttribute.inPlace : NumericAttribute → NumericDatum
  | inline n => n
  | toasted inPlace _ => inPlace

/-- What `numeric_mul` detoasts. -/
def NumericAttribute.stored : NumericAttribute → NumericDatum
  | inline n => n
  | toasted _ n => n

/-- The case of the deformer for numerics. -/
def deformNumericAttribute (typmod : Int) (a : NumericAttribute) : Except String Int :=
  match tryFastNumericToScaledInt64 a.inPlace (getNumericScaleFromTypmod typmod) with
  | some scaled => .ok scaled
  | none =>
    if a.stored.isSpecial then .error "cannot convert NaN to bigint"
    else numericInt8 (a.stored.value * 100)

/-- Of a numeric in place it is the case that is used for columns. -/
theorem deformNumericAttribute_inline (typmod : Int) (n : NumericDatum) :
    deformNumericAttribute typmod (.inline n) = deformNumeric typmod n := rfl

/-- The scale that the operators above take for the scale of the column. -/
def assumedScale (attr : Attribute) : Int :=
  columnNumericScale (columnOf attr 0 0 .int64NumericScaled)

theorem assumedScale_eq (attr : Attribute) :
    assumedScale attr = (getNumericScaleFromTypmod attr.atttypmod).bmod (2 ^ 8) :=
  columnNumericScale_columnOf rfl

/-- What the deformer writes is the value times ten to the scale of the column. -/
def WritesScaled (attr : Attribute) (a : NumericAttribute) : Prop :=
  ∀ scaled, deformNumericAttribute attr.atttypmod a = .ok scaled →
    (scaled : ℚ) = a.stored.value * 10 ^ assumedScale attr

/-! ## Values that are misread -/

/-- The scale and the decimals are such that the digits are read. -/
def DigitsRead (n : NumericDatum) (targetScale : Int) : Prop :=
  0 ≤ targetScale ∧ targetScale ≤ 4 ∧ n.dscale ≤ targetScale

/-- The rounded hundredfold is in range, and it is not the scaled value. -/
structure HundredfoldWrong (attr : Attribute) (n : NumericDatum) : Prop where
  nonzero : n.value ≠ 0
  inRange : FitsInt64 (roundHalfAwayFromZero (n.value * 100))
  other : ¬ (assumedScale attr = 2 ∧ (n.value * 100).den = 1)

/-- **The values that are misread**: those whose digits are read and that are past the range
of `int64`, if the residue in 128 bits or the rounded hundredfold passes for one; those whose
digits are not read, unless the scale is two and there are two decimals; and those that are
not in place, if what is there passes for another value. -/
def Misread (attr : Attribute) : NumericAttribute → Prop
  | .inline n =>
    let targetScale := getNumericScaleFromTypmod attr.atttypmod
    n.isSpecial = false ∧
      ((DigitsRead n targetScale ∧ (WrapsIntoInt64 n targetScale ∨
          ¬ FitsInt64 (n.value * 10 ^ targetScale) ∧
            FitsInt64 (roundHalfAwayFromZero (n.value * 100)))) ∨
        (¬ DigitsRead n targetScale ∧ HundredfoldWrong attr n))
  | .toasted inPlace n =>
    let read := tryFastNumericToScaledInt64 inPlace (getNumericScaleFromTypmod attr.atttypmod)
    (∃ other, read = some other ∧ (other : ℚ) ≠ n.value * 10 ^ assumedScale attr) ∨
      (read = none ∧ n.isSpecial = false ∧ HundredfoldWrong attr n)

section Deform

variable {attr : Attribute} {a : NumericAttribute}

/-- Digits that were read. -/
theorem writesScaled_of_read {scaled : Int}
    (hread : tryFastNumericToScaledInt64 a.inPlace (getNumericScaleFromTypmod attr.atttypmod) =
      some scaled) :
    WritesScaled attr a ↔ (scaled : ℚ) = a.stored.value * 10 ^ assumedScale attr := by
  rw [WritesScaled, deformNumericAttribute, hread]
  constructor
  · intro h
    exact h scaled rfl
  · rintro h _ hok
    obtain rfl := Except.ok.inj hok
    exact h

/-- The product with a hundred. -/
theorem writesScaled_of_not_read
    (hread : tryFastNumericToScaledInt64 a.inPlace (getNumericScaleFromTypmod attr.atttypmod) =
      none) :
    WritesScaled attr a ↔ ¬ (a.stored.isSpecial = false ∧ HundredfoldWrong attr a.stored) := by
  rw [WritesScaled, deformNumericAttribute, hread]
  dsimp only
  by_cases hspecial : a.stored.isSpecial = true
  · rw [if_pos hspecial]
    refine iff_of_true (fun scaled h => by cases h) ?_
    rintro ⟨hfinite, -⟩
    exact absurd (hspecial.symm.trans hfinite) Bool.false_ne_true.symm
  · rw [if_neg hspecial, numericInt8]
    by_cases hrange : FitsInt64 (roundHalfAwayFromZero (a.stored.value * 100))
    · rw [if_pos hrange]
      have hiff := @roundHalfAwayFromZero_eq_mul_zpow_iff a.stored.value (assumedScale attr)
      constructor
      · rintro h ⟨-, hnonzero, -, hother⟩
        exact (hiff.1 (h _ rfl)).elim hnonzero hother
      · rintro hnot _ hok
        obtain rfl := Except.ok.inj hok
        rw [hiff]
        by_contra hneither
        obtain ⟨hnonzero, hother⟩ := not_or.1 hneither
        exact hnot ⟨Bool.not_eq_true _ ▸ hspecial, hnonzero, hrange, hother⟩
    · rw [if_neg hrange]
      refine iff_of_true (fun scaled h => by cases h) ?_
      rintro ⟨-, hwrong⟩
      exact hrange hwrong.inRange

theorem writesScaled_toasted_iff (inPlace n : NumericDatum) :
    WritesScaled attr (.toasted inPlace n) ↔ ¬ Misread attr (.toasted inPlace n) := by
  show _ ↔ ¬ ((∃ other, tryFastNumericToScaledInt64 inPlace _ = some other ∧ _) ∨ _ ∧ _)
  cases hread : tryFastNumericToScaledInt64 inPlace
      (getNumericScaleFromTypmod attr.atttypmod) with
  | some scaled =>
    rw [@writesScaled_of_read attr (.toasted inPlace n) scaled hread]
    constructor
    · rintro hsame (⟨other, hother, hne⟩ | ⟨hnone, -⟩)
      · obtain rfl := Option.some.inj hother
        exact hne hsame
      · cases hnone
    · intro hnot
      by_contra hne
      exact hnot (.inl ⟨scaled, rfl, hne⟩)
  | none =>
    rw [@writesScaled_of_not_read attr (.toasted inPlace n) hread]
    refine not_congr ⟨fun h => .inr ⟨rfl, h⟩, ?_⟩
    rintro (⟨other, hother, -⟩ | ⟨-, h⟩)
    · cases hother
    · exact h

/-- Within its scales the first function reads the residue of an integer. -/
theorem read_of_digitsRead {n : NumericDatum} (hwf : n.WellFormed) {targetScale : Int}
    (hdigits : DigitsRead n targetScale) :
    ∃ x : Int, (x : ℚ) = n.value * 10 ^ targetScale ∧
      tryFastNumericToScaledInt64 n targetScale =
        if FitsInt64 (wide x) then some (wide x) else none := by
  obtain ⟨hpos, hle, hdscale⟩ := hdigits
  obtain ⟨scale, rfl⟩ := Int.eq_ofNat_of_zero_le hpos
  obtain ⟨acc, hvalue, -, hread⟩ := readScaledInt64_eq hwf (show scale ≤ 4 by omega)
    (show n.dscale ≤ scale by omega)
  refine ⟨signOf n * NumericDatum.WellFormed.magnitude n scale, ?_, ?_⟩
  · rw [zpow_natCast, hwf.value_mul_pow (by omega) (by omega), signOf]
    push_cast
    split <;> norm_num
  · rw [← readScaledInt64_value, hread, hvalue]
    split
    · exact congrArg some hvalue
    · rfl

theorem writesScaled_inline_iff {n : NumericDatum} (h : n.isSpecial = false → n.WellFormed) :
    WritesScaled attr (.inline n) ↔ ¬ Misread attr (.inline n) := by
  have hnot_read := @writesScaled_of_not_read attr (.inline n)
  have hread_iff := fun scaled => @writesScaled_of_read attr (.inline n) scaled
  simp only [NumericAttribute.inPlace, NumericAttribute.stored] at hnot_read hread_iff
  rw [Misread]
  by_cases hspecial : n.isSpecial = true
  · have hinfinite : ¬ n.isSpecial = false := fun hfinite =>
      Bool.false_ne_true (hfinite.symm.trans hspecial)
    rw [hnot_read (by rw [tryFastNumericToScaledInt64, if_pos hspecial])]
    exact not_congr ⟨fun hboth => absurd hboth.1 hinfinite, fun hboth => absurd hboth.1 hinfinite⟩
  have hfinite : n.isSpecial = false := Bool.not_eq_true _ ▸ hspecial
  by_cases hdigits : DigitsRead n (getNumericScaleFromTypmod attr.atttypmod)
  · obtain ⟨x, hx, hread⟩ := read_of_digitsRead (h hfinite) hdigits
    have hscale : assumedScale attr = getNumericScaleFromTypmod attr.atttypmod := by
      rw [assumedScale_eq]
      apply Int.bmod_eq_of_le <;> [have := hdigits.1; have := hdigits.2.1] <;> omega
    have hfits_wide : FitsInt64 (n.value * 10 ^ getNumericScaleFromTypmod attr.atttypmod) →
        wide x = x := by
      rw [← hx]
      exact wide_eq_of_fitsInt64
    by_cases hfits : FitsInt64 (wide x)
    · rw [if_pos hfits] at hread
      rw [hread_iff _ hread, hscale, ← hx]
      have hbounds : -2 ^ 63 ≤ wide x ∧ wide x ≤ 2 ^ 63 - 1 :=
        ⟨by exact_mod_cast hfits.1, by exact_mod_cast hfits.2⟩
      constructor
      · intro hsame
        have heq : wide x = x := by exact_mod_cast hsame
        rw [heq] at hbounds
        rintro ⟨-, ⟨-, ⟨-, -, -, y, hy, hbig, -⟩ | ⟨hpast, -⟩⟩ | ⟨hnone, -⟩⟩
        · obtain rfl : y = x := by exact_mod_cast hy.trans hx.symm
          have := abs_le.2 (⟨by omega, by omega⟩ : -2 ^ 63 ≤ y ∧ y ≤ 2 ^ 63)
          omega
        · rw [← heq] at hpast
          exact hpast hfits
        · exact hnone hdigits
      · intro hnot
        by_contra hother
        refine hnot ⟨hfinite, .inl ⟨hdigits, .inl ⟨hfinite, ⟨hdigits.1, hdigits.2.1⟩,
          hdigits.2.2, x, hx, ?_, hfits⟩⟩⟩
        by_contra hsmall
        have hless := abs_lt.1 (not_le.1 hsmall)
        exact hother (by rw [wide_eq hless.1.le hless.2])
    · rw [if_neg hfits] at hread
      have hpast : ¬ FitsInt64 (n.value * 10 ^ getNumericScaleFromTypmod attr.atttypmod) := by
        intro hin
        rw [hfits_wide hin, hx] at hfits
        exact hfits hin
      rw [hnot_read hread]
      refine not_congr (and_congr_right fun _ => ⟨fun hwrong => ?_, ?_⟩)
      · exact .inl ⟨hdigits, .inr ⟨hpast, hwrong.inRange⟩⟩
      · rintro (⟨-, ⟨-, -, -, y, hy, -, hpasses⟩ | ⟨-, hrange⟩⟩ | ⟨hnone, -⟩)
        · obtain rfl : y = x := by exact_mod_cast hy.trans hx.symm
          exact absurd hpasses hfits
        · refine ⟨fun hzero => hpast ?_, hrange, ?_⟩
          · rw [hzero, zero_mul]
            exact ⟨by norm_num, by norm_num⟩
          · -- with two decimals the hundredfold is the scaled value
            rintro ⟨htwo, -⟩
            rw [hscale] at htwo
            have hsame : n.value * 100 = x := by
              rw [hx, htwo]
              norm_num
            rw [hsame, roundHalfAwayFromZero_intCast, hx] at hrange
            exact hpast hrange
        · exact absurd hdigits hnone
  · rw [hnot_read (tryFastNumericToScaledInt64_eq_none hdigits)]
    refine not_congr (and_congr_right fun _ => ⟨fun hwrong => .inr ⟨hdigits, hwrong⟩, ?_⟩)
    rintro (⟨hread, -⟩ | ⟨-, hwrong⟩)
    · exact absurd hread hdigits
    · exact hwrong

/-- **When the deformer writes the scaled value.** -/
theorem numeric_deform_exact (h : a.stored.isSpecial = false → a.stored.WellFormed) :
    WritesScaled attr a ↔ ¬ Misread attr a := by
  cases a with
  | inline n => exact writesScaled_inline_iff h
  | toasted inPlace n => exact writesScaled_toasted_iff inPlace n

end Deform

/-! ## A column with six decimals -/

/-- A column `numeric(12, 6)`. -/
def sixDecimals : Attribute := ⟨numericOid, 786442, -1, false⟩

/-- One and a half, with six decimals. -/
def oneAndAHalf : NumericDatum := ⟨0x8300, 0, [1, 5000]⟩

theorem oneAndAHalf_wellFormed : oneAndAHalf.WellFormed := by
  have hpast : ∀ i, 2 ≤ i → oneAndAHalf.digit i = 0 := fun i hi => digit_eq_zero_of_length_le hi
  refine ⟨by decide, fun i => ?_, fun i hi => ?_⟩
  · rcases Nat.lt_or_ge i 2 with hlt | hge
    · interval_cases i <;> decide
    · rw [hpast i hge]
      norm_num
  · rcases Nat.lt_or_ge i 2 with hlt | hge
    · have hweight : oneAndAHalf.weight = 0 := by decide
      obtain rfl : i = 1 := by omega
      decide
    · rw [hpast i hge]
      exact dvd_zero _

theorem oneAndAHalf_value : oneAndAHalf.value = 3 / 2 := by
  have hpositive : oneAndAHalf.negative = false := by decide
  have hweight : oneAndAHalf.weight = 0 := by decide
  have hlength : oneAndAHalf.digits.length = 2 := rfl
  have hfirst : oneAndAHalf.digit 0 = 1 := by decide
  have hsecond : oneAndAHalf.digit 1 = 5000 := by decide
  rw [NumericDatum.value, hpositive, hweight, hlength, PositionalNumerals.numeral,
    Finset.sum_range_succ, Finset.sum_range_one, hfirst, hsecond]
  norm_num

theorem numeric_deform_exact_six :
    WritesScaled sixDecimals (.inline oneAndAHalf) ↔ ¬ Misread sixDecimals (.inline oneAndAHalf) :=
  numeric_deform_exact fun _ => oneAndAHalf_wellFormed

/-- **Six decimals are taken for two**: one and a half is written as 150 millionths. -/
theorem not_writesScaled : ¬ ∀ (attr : Attribute) (a : NumericAttribute),
    (a.stored.isSpecial = false → a.stored.WellFormed) → WritesScaled attr a := by
  intro hall
  have hscale : getNumericScaleFromTypmod sixDecimals.atttypmod = 6 := by decide
  have hread : tryFastNumericToScaledInt64 oneAndAHalf 6 = none := by
    apply tryFastNumericToScaledInt64_eq_none
    omega
  have hhundred : oneAndAHalf.value * 100 = ((150 : Int) : ℚ) := by
    rw [oneAndAHalf_value]
    norm_num
  have hfits : FitsInt64 ((150 : Int) : ℚ) := by
    constructor <;> norm_num
  have hdeform : deformNumericAttribute sixDecimals.atttypmod (.inline oneAndAHalf) = .ok 150 := by
    rw [deformNumericAttribute_inline, deformNumeric, hscale, hread]
    dsimp only
    rw [oneAndAHalf_wellFormed.finite, if_neg Bool.false_ne_true, hhundred, numericInt8,
      roundHalfAwayFromZero_intCast, if_pos hfits]
  have hsame := hall sixDecimals (.inline oneAndAHalf) (fun _ => oneAndAHalf_wellFormed) 150 hdeform
  rw [assumedScale_eq, hscale, show (6 : Int).bmod (2 ^ 8) = 6 by decide,
    show NumericAttribute.stored (.inline oneAndAHalf) = oneAndAHalf from rfl,
    oneAndAHalf_value] at hsame
  norm_num at hsame

end NumericColumns
end PgYaap
