import PgYaap.FilterScratch

/-! # Attributes in the scratch row

What the deformer makes of one attribute, and when that is the value the filter wants. A promoted
integer is stored as it is: four bytes into the low half of a slot of eight. A numeric is decoded
at the scale of its column, a character is the byte behind its header. -/
namespace PgYaap
namespace FilterScratch

open FilterProgram SimpleFilterSteps HeapTuples
open StoredNumeric NumericColumns

/-! ## Numbers in their slots -/

/-- What four bytes in the low half leave of a slot. -/
theorem toInt_storeInt32 (slot : Int64) (v : Int32) :
    (storeInt32 slot v).toInt = 2 ^ 32 * (slot.toInt / 2 ^ 32) + v.toInt % 2 ^ 32 := by
  have hhigh : (slot.toBitVec.extractLsb' 32 32).toInt = slot.toInt / 2 ^ 32 := by
    rw [BitVec.toInt_eq_toNat_bmod, BitVec.extractLsb'_toNat, Nat.shiftRight_eq_div_pow]
    have hslot : slot.toInt = (slot.toBitVec.toNat : Int).bmod (2 ^ 64) :=
      BitVec.toInt_eq_toNat_bmod _
    have hlt := slot.toBitVec.isLt
    rw [hslot]
    generalize slot.toBitVec.toNat = n at hlt
    rw [Int.bmod_def, Int.bmod_def]
    push_cast
    split <;> split <;> omega
  have hlow : (v.toBitVec.toNat : Int) = v.toInt % 2 ^ 32 := by
    have hv : v.toInt = (v.toBitVec.toNat : Int).bmod (2 ^ 32) := BitVec.toInt_eq_toNat_bmod _
    have hlt := v.toBitVec.isLt
    rw [hv]
    generalize v.toBitVec.toNat = n at hlt
    rw [Int.bmod_def]
    push_cast
    split <;> omega
  show (slot.toBitVec.extractLsb' 32 32 ++ v.toBitVec).toInt = _
  rw [BitVec.toInt_append, if_neg (by decide), hhigh, hlow]

theorem storeInt32_scaled_iff {slot : Int64} {v : Int32} {scale : Nat} :
    (storeInt32 slot v).toInt = v.toInt * 10 ^ scale ↔
      (v.toInt = 0 ∨ scale = 0) ∧ slot.toInt / 2 ^ 32 = if v.toInt < 0 then -1 else 0 := by
  rw [toInt_storeInt32]
  have hlo := v.le_toInt
  have hhi := v.toInt_lt
  generalize v.toInt = x at *
  generalize slot.toInt / 2 ^ 32 = high
  constructor
  · intro h
    rcases Nat.eq_zero_or_pos scale with rfl | hpos
    · refine ⟨.inr rfl, ?_⟩
      rw [pow_zero, mul_one] at h
      split <;> omega
    · -- ten to a positive power is one modulo an odd number, so `x` is a multiple of `2 ^ 32`
      obtain ⟨k, hk⟩ : ∃ k : Int, (10 : Int) ^ scale = 2 * k := by
        obtain ⟨n, rfl⟩ := Nat.exists_eq_add_of_lt hpos
        exact ⟨5 * 10 ^ n, by ring⟩
      have hdvd : (2 : Int) ^ 32 ∣ x * (2 * k - 1) := by
        refine ⟨high - x / 2 ^ 32, ?_⟩
        rw [hk] at h
        have hmod : x % 2 ^ 32 = x - 2 ^ 32 * (x / 2 ^ 32) := Int.emod_def _ _
        rw [hmod] at h
        linarith
      have hcoprime : IsCoprime ((2 : Int) ^ 32) (2 * k - 1) :=
        IsCoprime.pow_left ⟨k, -1, by ring⟩
      obtain ⟨m, hm⟩ := hcoprime.dvd_of_dvd_mul_right hdvd
      have hzero : x = 0 := by omega
      subst hzero
      refine ⟨.inl rfl, ?_⟩
      rw [if_neg (by omega)]
      simpa using h
  · rintro ⟨rfl | rfl, hhigh⟩
    · rw [hhigh]
      simp
    · rw [hhigh, pow_zero, mul_one]
      split <;> omega

theorem fitsInt64_of_read {n : NumericDatum} {targetScale x : Int}
    (h : tryFastNumericToScaledInt64 n targetScale = some x) : FitsInt64 x := by
  rw [← readScaledInt64_value] at h
  obtain ⟨accum, haccum, rfl⟩ := Option.map_eq_some_iff.1 h
  simp only [readScaledInt64] at haccum
  split_ifs at haccum with _ _ _ _ _ hfits
  cases haccum
  exact hfits

theorem fitsInt64_of_deform {typmod x : Int} {a : NumericAttribute}
    (h : deformNumericAttribute typmod a = .ok x) : FitsInt64 x := by
  rw [deformNumericAttribute] at h
  cases hread : tryFastNumericToScaledInt64 a.inPlace (getNumericScaleFromTypmod typmod) with
  | some scaled =>
    rw [hread] at h
    obtain rfl := Except.ok.inj h
    exact fitsInt64_of_read hread
  | none =>
    rw [hread] at h
    dsimp only at h
    split at h
    · cases h
    · rw [numericInt8] at h
      split at h
      · next hfits =>
        obtain rfl := Except.ok.inj h
        exact hfits
      · cases h

theorem toInt_ofInt_of_fits {x : Int} (h : FitsInt64 x) : (Int64.ofInt x).toInt = x := by
  obtain ⟨hlo, hhi⟩ := h
  have hlo' : -2 ^ 63 ≤ x := by exact_mod_cast hlo
  have hhi' : x ≤ 2 ^ 63 - 1 := by exact_mod_cast hhi
  exact Int64.toInt_ofInt_of_le hlo' (by omega)

/-- The rounded hundredfold in range, at a scale. -/
theorem numericInt8_hundred_iff {n : NumericDatum} {scale : Nat} :
    (∃ x, numericInt8 (n.value * 100) = .ok x ∧ (x : ℚ) = n.value * 10 ^ scale) ↔
      HundredfoldRight n scale := by
  have hiff := @roundHalfAwayFromZero_eq_mul_zpow_iff n.value scale
  rw [zpow_natCast] at hiff
  constructor
  · rintro ⟨x, hx, heq⟩
    rw [numericInt8] at hx
    split at hx
    · next hfits =>
      obtain rfl := Except.ok.inj hx
      rcases hiff.1 heq with hzero | ⟨htwo, hden⟩
      · exact .inl hzero
      · refine .inr ⟨by exact_mod_cast htwo, hden, ?_⟩
        have hint : ((n.value * 100).num : ℚ) = n.value * 100 := (Rat.den_eq_one_iff _).1 hden
        rwa [← hint, roundHalfAwayFromZero_intCast, hint] at hfits
    · cases hx
  · intro h
    have heq : (roundHalfAwayFromZero (n.value * 100) : ℚ) = n.value * 10 ^ scale :=
      hiff.2 (h.imp id fun h => ⟨by exact_mod_cast h.1, h.2.1⟩)
    refine ⟨_, ?_, heq⟩
    rw [numericInt8, if_pos]
    rcases h with hzero | ⟨-, hden, hfits⟩
    · rw [heq, hzero, zero_mul]
      exact ⟨by norm_num, by norm_num⟩
    · have hint : ((n.value * 100).num : ℚ) = n.value * 100 := (Rat.den_eq_one_iff _).1 hden
      rwa [← hint, roundHalfAwayFromZero_intCast, hint]

/-- **A numeric is decoded rightly** if and only if it fits. -/
theorem numericFits_iff {typmod : Int} {scale : Nat} {a : NumericAttribute}
    (hwf : a.stored.isSpecial = false → a.stored.WellFormed)
    (hscale : 0 ≤ getNumericScaleFromTypmod typmod → getNumericScaleFromTypmod typmod ≤ 4 →
      (scale : Int) = getNumericScaleFromTypmod typmod) :
    (a.stored.isSpecial = false ∧ ∃ x, deformNumericAttribute typmod a = .ok x ∧
      (x : ℚ) = a.stored.value * 10 ^ scale) ↔ NumericFits typmod scale a := by
  unfold NumericFits
  refine and_congr_right fun hfinite => ?_
  have hspecial : ¬ a.stored.isSpecial = true := by rw [hfinite]; exact Bool.false_ne_true
  have hfallback : tryFastNumericToScaledInt64 a.inPlace (getNumericScaleFromTypmod typmod) = none →
      deformNumericAttribute typmod a = numericInt8 (a.stored.value * 100) := by
    intro hnone
    rw [deformNumericAttribute, hnone]
    exact if_neg hspecial
  have hread : ∀ x, tryFastNumericToScaledInt64 a.inPlace (getNumericScaleFromTypmod typmod) =
      some x → deformNumericAttribute typmod a = .ok x := by
    intro x hx
    rw [deformNumericAttribute, hx]
  cases a with
  | inline n =>
    dsimp only [NumericAttribute.stored, NumericAttribute.inPlace] at *
    by_cases hdigits : DigitsRead n (getNumericScaleFromTypmod typmod)
    · obtain ⟨x, hx, hfast⟩ := read_of_digitsRead (hwf hfinite) hdigits
      rw [← hscale hdigits.1 hdigits.2.1, zpow_natCast] at hx
      rw [← hx]
      constructor
      · rintro ⟨y, hy, heq⟩
        have hyx : y = x := by exact_mod_cast heq
        subst hyx
        exact .inl ⟨hdigits, fitsInt64_of_deform hy⟩
      · rintro (⟨-, hfits⟩ | ⟨hnot, -⟩)
        · rw [wide_eq_of_fitsInt64 hfits, if_pos hfits] at hfast
          exact ⟨x, hread x hfast, rfl⟩
        · exact absurd hdigits hnot
    · rw [hfallback (tryFastNumericToScaledInt64_eq_none hdigits), numericInt8_hundred_iff]
      exact ⟨fun h => .inr ⟨hdigits, h⟩, fun h => h.elim (fun h => absurd h.1 hdigits) And.right⟩
  | toasted inPlace n =>
    dsimp only [NumericAttribute.stored, NumericAttribute.inPlace] at *
    cases hfast : tryFastNumericToScaledInt64 inPlace (getNumericScaleFromTypmod typmod) with
    | some x =>
      rw [hread x hfast]
      constructor
      · rintro ⟨y, hy, heq⟩
        obtain rfl := Except.ok.inj hy
        exact heq
      · exact fun h => ⟨x, rfl, h⟩
    | none =>
      rw [hfallback hfast, numericInt8_hundred_iff]

/-! ## One attribute -/

/-- What the description of an input says of its column. -/
structure InputOf (c : RelationColumn) (input : FilterInputDesc) : Prop where
  attno_ne : input.attno ≠ 0
  kind : c.sourceKind = some input.sourceDecodeKind
  own_or_promoted : (input.decodeKind = input.sourceDecodeKind ∧
      input.sourceDecodeKind ≠ .doubleFloat8 ∧
      input.numericScale = inputScale ⟨c.atttypid, c.atttypmod, input.sourceDecodeKind, .left⟩) ∨
    (input.decodeKind = .int64NumericScaled ∧
      (input.sourceDecodeKind = .int32Int4 ∨ input.sourceDecodeKind = .int64Int8))

theorem scanSchema_eq_some {rel : List RelationColumn} {attno : Nat} {s : ColumnSchema}
    (h : scanSchema rel attno = some s) : attno ≠ 0 ∧ ∃ c, rel[attno - 1]? = some c ∧
      c.sourceKind = some s.decodeKind ∧ s = ⟨c.atttypid, c.atttypmod, s.decodeKind, .left⟩ := by
  rw [scanSchema] at h
  by_cases hzero : attno = 0
  · rw [if_pos hzero] at h
    cases h
  · rw [if_neg hzero] at h
    obtain ⟨c, hc, h⟩ := Option.bind_eq_some_iff.1 h
    obtain ⟨kind, hkind, rfl⟩ := Option.map_eq_some_iff.1 h
    exact ⟨hzero, c, hc, hkind, rfl⟩

/-- Inputs as they are published are of their columns. -/
theorem inputOf_of_described {rel : List RelationColumn} {input : FilterInputDesc}
    (h : Described (scanSchema rel) input) :
    ∃ c, rel[input.attno - 1]? = some c ∧ InputOf c input := by
  obtain ⟨request, hrequest, hdesc⟩ := h
  cases hrequest with
  | own hs hfloat =>
    rename_i col s
    obtain ⟨hpos, c, hc, hkind, heq⟩ := scanSchema_eq_some hs
    rw [requestDesc, hs] at hdesc
    obtain rfl := Option.some.inj hdesc
    refine ⟨c, hc, hpos, hkind, .inl ⟨rfl, hfloat, ?_⟩⟩
    show inputScale s = inputScale ⟨c.atttypid, c.atttypmod, s.decodeKind, .left⟩
    rw [← heq]
  | promoted hs hs' hne hnumeric hnumeric' =>
    rename_i col other s s'
    obtain ⟨hpos, c, hc, hkind, heq⟩ := scanSchema_eq_some hs
    rw [requestDesc, hs] at hdesc
    obtain rfl := Option.some.inj hdesc
    refine ⟨c, hc, hpos, hkind, ?_⟩
    show (ColumnDecodeKind.int64NumericScaled = s.decodeKind ∧ s.decodeKind ≠ .doubleFloat8 ∧
      (if s.decodeKind = .int64NumericScaled then inputScale s else scanTargetScale s s') =
        inputScale ⟨c.atttypid, c.atttypmod, s.decodeKind, .left⟩) ∨
      (ColumnDecodeKind.int64NumericScaled = .int64NumericScaled ∧
        (s.decodeKind = .int32Int4 ∨ s.decodeKind = .int64Int8))
    rw [← heq]
    cases hdecode : s.decodeKind with
    | int64NumericScaled => exact .inl ⟨rfl, by decide, if_pos rfl⟩
    | int32Int4 => exact .inr ⟨rfl, .inl rfl⟩
    | int64Int8 => exact .inr ⟨rfl, .inr rfl⟩
    | int32Char => rw [hdecode] at hnumeric; cases hnumeric
    | int32Date => rw [hdecode] at hnumeric; cases hnumeric
    | doubleFloat8 => rw [hdecode] at hnumeric; cases hnumeric
    | stringRef => rw [hdecode] at hnumeric; cases hnumeric

/-- The type and the length of a column that is stored as a kind. -/
def LengthOf (c : RelationColumn) : ColumnDecodeKind → Prop
  | .int32Char => (c.atttypid = ColumnSlots.charOid ∧ c.attlen = some 1) ∨
      (c.atttypid = ColumnSlots.bpcharOid ∧ c.attlen = none)
  | .int32Date | .int32Int4 => c.attlen = some 4
  | .int64Int8 | .doubleFloat8 => c.attlen = some 8
  | .int64NumericScaled => c.atttypid = ColumnSlots.numericOid ∧ c.attlen = none
  | .stringRef => c.attlen = none

theorem lengthOf {c : RelationColumn} {kind : ColumnDecodeKind} (h : c.sourceKind = some kind) :
    LengthOf c kind := by
  have hlen := c.attlen_eq
  generalize htypid : c.atttypid = typid at hlen
  unfold RelationColumn.sourceKind ColumnSlots.seqScanDecodeKind RelationColumn.attribute at h
  simp only [htypid] at h
  unfold typlen at hlen
  split_ifs at h with h1 h2 h3 h4 h5 h6 h7 h8 h9 <;>
    simp only [Option.bind_some, filterKind, Option.some.injEq, Option.bind_none] at h <;>
    (try cases h) <;> simp_all [LengthOf, ColumnSlots.charOid, ColumnSlots.dateOid,
      ColumnSlots.int4Oid, ColumnSlots.int8Oid, ColumnSlots.float8Oid, ColumnSlots.bpcharOid,
      ColumnSlots.numericOid, ColumnSlots.textOid, ColumnSlots.varcharOid]

/-- A content stands for a value, numbers times ten to the scale. -/
def Represents (scale : Nat) : Content → ColumnValue → Prop
  | .int32 x, .number q => (x.toInt : ℚ) = q * 10 ^ scale
  | .int64 x, .number q => (x.toInt : ℚ) = q * 10 ^ scale
  | .string bytes, .string bytes' => bytes' = bytes
  | _, _ => False

/-- What is decoded goes into the array as a content that stands for the value. -/
def Decoded (array : ScratchArray) (old : Int64) (scale : Nat) (decoded : Except String Datum)
    (value : Option ColumnValue) : Prop :=
  ∃ content v, Stores array old (some decoded) content ∧ value = some v ∧ Represents scale content v

section Decoded

variable {old : Int64} {scale : Nat} {q : ℚ}

theorem decoded_int32 {x : Int32} :
    Decoded .int32 old scale (.ok (.int32 x)) (some (.number q)) ↔
      (x.toInt : ℚ) = q * 10 ^ scale := by
  constructor
  · rintro ⟨content, v, hstores, hv, hrep⟩
    obtain rfl := Option.some.inj hv
    cases hstores with
    | int32 _ _ => exact hrep
    | promoted _ h => cases h
  · exact fun h => ⟨.int32 x, _, .int32 x rfl, rfl, h⟩

theorem decoded_promoted {x : Int32} :
    Decoded .int64 old scale (.ok (.int32 x)) (some (.number q)) ↔
      ((storeInt32 old x).toInt : ℚ) = q * 10 ^ scale := by
  constructor
  · rintro ⟨content, v, hstores, hv, hrep⟩
    obtain rfl := Option.some.inj hv
    cases hstores with
    | int32 _ h => cases h
    | promoted _ _ => exact hrep
  · exact fun h => ⟨.int64 (storeInt32 old x), _, .promoted x rfl, rfl, h⟩

theorem decoded_int64 {x : Int64} :
    Decoded .int64 old scale (.ok (.int64 x)) (some (.number q)) ↔
      (x.toInt : ℚ) = q * 10 ^ scale := by
  constructor
  · rintro ⟨content, v, hstores, hv, hrep⟩
    obtain rfl := Option.some.inj hv
    cases hstores
    exact hrep
  · exact fun h => ⟨.int64 x, _, .int64 x rfl, rfl, h⟩

theorem decoded_string {bytes bytes' : List UInt8} :
    Decoded .string old scale (HeapColumns.storeStringBytes bytes) (some (.string bytes')) ↔
      bytes' = bytes ∧ bytes.length ≤ 65536 := by
  rw [HeapColumns.storeStringBytes]
  by_cases hlong : 65536 < bytes.length
  · rw [if_pos hlong]
    refine iff_of_false ?_ fun h => absurd h.2 (Nat.not_le.2 hlong)
    rintro ⟨content, v, hstores, -, -⟩
    cases hstores
  · rw [if_neg hlong]
    constructor
    · rintro ⟨content, v, hstores, hv, hrep⟩
      obtain rfl := Option.some.inj hv
      cases hstores
      exact ⟨hrep, Nat.not_lt.1 hlong⟩
    · rintro ⟨rfl, hle⟩
      exact ⟨.string bytes', _, .string _ rfl hle, rfl, rfl⟩

theorem not_decoded_none {array : ScratchArray} {decoded : Except String Datum} :
    ¬ Decoded array old scale decoded none := by
  rintro ⟨content, v, -, hv, -⟩
  cases hv

theorem not_decoded_error {array : ScratchArray} {e : String} {value : Option ColumnValue} :
    ¬ Decoded array old scale (.error e) value := by
  rintro ⟨content, v, hstores, -, -⟩
  cases hstores

/-- A byte in a slot of four. -/
theorem toInt_byte (b : UInt8) : (Int32.ofNat b.toNat).toInt = b.toNat := by
  have hlt := b.toNat_lt
  rw [Int32.toInt_ofNat_of_lt (by omega)]

theorem byte_inj {b b' : UInt8} :
    ((Int32.ofNat b.toNat).toInt : ℚ) = (b'.toNat : ℚ) * 10 ^ 0 ↔ b = b' := by
  rw [toInt_byte, pow_zero, mul_one, Int.cast_natCast, Nat.cast_inj, UInt8.toNat_inj]

end Decoded

section Attribute

variable {detoast : List UInt8 → List UInt8} {t : HeapTuple} {c : RelationColumn}
  {input : FilterInputDesc} {old : Int64} {start : Nat}

/-- A column that is no numeric and not promoted has no scale. -/
theorem numericScale_eq_zero {kind : ColumnDecodeKind} (h : kind ≠ .int64NumericScaled) :
    inputScale ⟨c.atttypid, c.atttypmod, kind, .left⟩ = 0 := by
  rw [inputScale, columnNumericScale, if_neg h]
  rfl

/-- The scale of a numeric column is that of its type modifier, where digits are read. -/
theorem inputScale_eq (hpos : 0 ≤ getNumericScaleFromTypmod c.atttypmod)
    (hle : getNumericScaleFromTypmod c.atttypmod ≤ 4) :
    (inputScale ⟨c.atttypid, c.atttypmod, .int64NumericScaled, .left⟩ : Int) =
      getNumericScaleFromTypmod c.atttypmod := by
  rw [inputScale, columnNumericScale, if_pos rfl]
  dsimp only
  by_cases htypmod : c.atttypmod < 4
  · rw [if_neg (Int.not_le.2 htypmod), getNumericScaleFromTypmod, if_pos htypmod]
    rfl
  · have hsame : extractNumericTypmodScale c.atttypmod = getNumericScaleFromTypmod c.atttypmod := by
      have hmod : ((c.atttypmod - 4) % 2048).toNat = (c.atttypmod - 4).toNat &&& 0x7ff := by
        rw [show (0x7ff : Nat) = 2 ^ 11 - 1 from rfl, Nat.and_two_pow_sub_one_eq_mod]
        omega
      rw [extractNumericTypmodScale, getNumericScaleFromTypmod, if_neg htypmod, if_neg htypmod,
        hmod]
    rw [if_pos (Int.not_lt.1 htypmod), hsame, toInt8]
    have hbmod : (getNumericScaleFromTypmod c.atttypmod).bmod 256 =
        getNumericScaleFromTypmod c.atttypmod := by
      apply Int.bmod_eq_of_le <;> omega
    rw [hbmod, Int.toNat_of_nonneg hpos]

theorem int4_iff (hin : InputOf c input) (hkind : input.sourceDecodeKind = .int32Int4)
    {bytes : List UInt8} {array : ScratchArray}
    (harray : bindingArray input.decodeKind = some array) :
    Decoded array old input.numericScale
        (.ok (.int32 (UInt32.ofNat (ByteMemory.decode bytes)).toInt32))
        (some (.number (int32At bytes))) ↔
      input.decodeKind = .int32Int4 ∨ Int4Fits (int32At bytes) old input.numericScale := by
  rcases hin.own_or_promoted with ⟨hown, -, hscale⟩ | ⟨hpromoted, -⟩
  · rw [hkind] at hown hscale
    rw [hown] at harray
    obtain rfl := Option.some.inj harray
    rw [hscale, numericScale_eq_zero (by nofun), decoded_int32, pow_zero, mul_one]
    exact iff_of_true rfl (.inl hown)
  · rw [hpromoted] at harray
    obtain rfl := Option.some.inj harray
    have hcast : ∀ x : Int32, (((storeInt32 old x).toInt : ℚ) =
        (x.toInt : ℚ) * 10 ^ input.numericScale) ↔
          (storeInt32 old x).toInt = x.toInt * 10 ^ input.numericScale := fun x => by
      exact_mod_cast Iff.rfl
    rw [decoded_promoted, int32At, hcast, storeInt32_scaled_iff, hpromoted]
    constructor
    · exact fun h => .inr ⟨h.1, h.2⟩
    · rintro (h | h)
      · cases h
      · exact ⟨h.unscaled, h.high⟩

theorem int8_iff (hin : InputOf c input) (hkind : input.sourceDecodeKind = .int64Int8)
    {bytes : List UInt8} {array : ScratchArray}
    (harray : bindingArray input.decodeKind = some array) :
    Decoded array old input.numericScale
        (.ok (.int64 (UInt64.ofNat (ByteMemory.decode bytes)).toInt64))
        (some (.number (int64At bytes))) ↔
      input.decodeKind = .int64Int8 ∨ int64At bytes = 0 ∨ input.numericScale = 0 := by
  rcases hin.own_or_promoted with ⟨hown, -, hscale⟩ | ⟨hpromoted, -⟩
  · rw [hkind] at hown hscale
    rw [hown] at harray
    obtain rfl := Option.some.inj harray
    rw [hscale, numericScale_eq_zero (by nofun), decoded_int64, pow_zero, mul_one]
    exact iff_of_true rfl (.inl hown)
  · rw [hpromoted] at harray
    obtain rfl := Option.some.inj harray
    rw [decoded_int64, hpromoted, ← int64At]
    constructor
    · intro h
      by_cases hzero : int64At bytes = 0
      · exact .inr (.inl hzero)
      · refine .inr (.inr ?_)
        by_contra hscale
        have hone : ((10 ^ input.numericScale : Nat) : ℚ) = 1 := by
          have hne : (int64At bytes : ℚ) ≠ 0 := by exact_mod_cast hzero
          push_cast
          exact mul_left_cancel₀ hne (by rw [← h, mul_one])
        have hlt := Nat.one_lt_pow hscale (show 1 < 10 by norm_num)
        have hnat : 10 ^ input.numericScale = 1 := by exact_mod_cast hone
        omega
    · rintro (h | h | h)
      · cases h
      · rw [h, Int.cast_zero, zero_mul]
      · rw [h, pow_zero, mul_one]

theorem numeric_iff (hin : InputOf c input) (hkind : input.sourceDecodeKind = .int64NumericScaled)
    {bytes : List UInt8} {array : ScratchArray}
    (harray : bindingArray input.decodeKind = some array)
    (hwf : (numericAttribute detoast bytes).stored.isSpecial = false →
      (numericAttribute detoast bytes).stored.WellFormed) :
    Decoded array old input.numericScale (decodeNumeric detoast c.atttypmod bytes)
        (if (numericAttribute detoast bytes).stored.isSpecial then none
          else some (.number (numericAttribute detoast bytes).stored.value)) ↔
      NumericFits c.atttypmod input.numericScale (numericAttribute detoast bytes) := by
  rcases hin.own_or_promoted with ⟨hown, -, hscale⟩ | ⟨-, hother⟩
  · rw [hkind] at hown hscale
    rw [hown] at harray
    obtain rfl := Option.some.inj harray
    rw [← numericFits_iff hwf fun hpos hle => by rw [hscale, inputScale_eq hpos hle], decodeNumeric]
    by_cases hspecial : (numericAttribute detoast bytes).stored.isSpecial = true
    · rw [if_pos hspecial]
      refine iff_of_false not_decoded_none fun h => ?_
      exact Bool.false_ne_true (h.1.symm.trans hspecial)
    · rw [if_neg hspecial]
      cases hdeform : deformNumericAttribute c.atttypmod (numericAttribute detoast bytes) with
      | error e =>
        refine iff_of_false not_decoded_error ?_
        rintro ⟨-, x, hx, -⟩
        cases hx
      | ok x =>
        show Decoded .int64 old _ (.ok (.int64 (Int64.ofInt x))) _ ↔ _
        rw [decoded_int64, toInt_ofInt_of_fits (fitsInt64_of_deform hdeform)]
        constructor
        · exact fun h => ⟨Bool.not_eq_true _ ▸ hspecial, x, rfl, h⟩
        · rintro ⟨-, y, hy, h⟩
          obtain rfl := Except.ok.inj hy
          exact h
  · rw [hkind] at hother
    rcases hother with h | h <;> cases h

/-- The array of a column that is not promoted. -/
theorem own_of_kind (hin : InputOf c input) (h4 : input.sourceDecodeKind ≠ .int32Int4)
    (h8 : input.sourceDecodeKind ≠ .int64Int8) :
    input.decodeKind = input.sourceDecodeKind ∧ input.numericScale =
      inputScale ⟨c.atttypid, c.atttypmod, input.sourceDecodeKind, .left⟩ := by
  rcases hin.own_or_promoted with ⟨hown, -, hscale⟩ | ⟨-, h | h⟩
  · exact ⟨hown, hscale⟩
  · exact absurd h h4
  · exact absurd h h8

theorem char_iff (hin : InputOf c input) (hkind : input.sourceDecodeKind = .int32Char)
    {array : ScratchArray} (harray : bindingArray input.decodeKind = some array)
    (hend : t.hoff + (start + t.size c.toCompactAttribute start) ≤ t.len)
    (hchar : c.atttypid = ColumnSlots.bpcharOid →
      varHeader (t.data start) < t.varsizeAny start) :
    (Decoded array old input.numericScale
        (fetch (decodeNumeric detoast) .bpchar1 c.atttypmod
          (t.bytesAt start (t.width .bpchar1 start)))
        (attributeValue detoast c .int32Char
          (t.bytesAt start (t.size c.toCompactAttribute start))) ∧
      t.hoff + start + max 1 (t.width .bpchar1 start) ≤ t.len) ↔
      AttributeFits detoast t c input old start := by
  obtain ⟨hown, hscale⟩ := own_of_kind hin (by rw [hkind]; decide) (by rw [hkind]; decide)
  rw [hkind] at hown hscale
  rw [hown] at harray
  obtain rfl := Option.some.inj harray
  have hlen : LengthOf c .int32Char := hkind ▸ lengthOf hin.kind
  -- the byte behind the header that the first byte announces
  have hfetch : fetch (decodeNumeric detoast) .bpchar1 c.atttypmod
      (t.bytesAt start (t.width .bpchar1 start)) =
      .ok (.int32 (Int32.ofNat (t.data (start + varHeader (t.data start))).toNat)) := by
    rw [fetch, HeapTuple.width, headD_vardataAny (Nat.lt_succ_self _)]
  have hwidth : max 1 (t.width .bpchar1 start) = varHeader (t.data start) + 1 := by
    rw [HeapTuple.width]
    omega
  rw [hfetch, hwidth, hscale, numericScale_eq_zero (by decide)]
  unfold AttributeFits
  rw [hkind]
  dsimp only
  rw [attributeValue]
  rcases hlen with ⟨htypid, hone⟩ | ⟨htypid, hvarlena⟩
  · have hbytes : t.bytesAt start (t.size c.toCompactAttribute start) = [t.data start] := by
      rw [HeapTuple.size, hone]
      rfl
    rw [if_pos htypid, if_pos htypid, hbytes, decoded_int32, byte_inj, CharFits]
    exact and_congr_right fun _ => by rw [← Nat.add_assoc]
  · have hne : ¬ c.atttypid = ColumnSlots.charOid := by rw [htypid]; decide
    have hsize : t.size c.toCompactAttribute start = t.varsizeAny start := by
      rw [HeapTuple.size, hvarlena]
      rfl
    have hlt := hchar htypid
    rw [hsize] at hend
    rw [if_neg hne, if_neg hne, hsize, headD_vardataAny hlt]
    constructor
    · rintro ⟨hdecoded, -⟩
      split at hdecoded
      · next b hpayload =>
        rw [decoded_int32, byte_inj] at hdecoded
        exact ⟨b, hpayload, hdecoded⟩
      · exact absurd hdecoded not_decoded_none
    · rintro ⟨b, hpayload, hfirst⟩
      rw [hpayload]
      dsimp only
      rw [decoded_int32, byte_inj]
      exact ⟨hfirst, by omega⟩

/-- **An attribute of the tuple** is decoded into what the filter wants, from its bytes, if and
only if it fits. -/
theorem attribute_iff (hin : InputOf c input) {kind : HeapColumns.DeformDecodeKind}
    (hkind : filterDeformKind input.sourceDecodeKind = some kind)
    {array : ScratchArray} (harray : bindingArray input.decodeKind = some array)
    (hend : t.hoff + (start + t.size c.toCompactAttribute start) ≤ t.len)
    (hheader : c.attlen = none → varHeader (t.data start) ≤ t.varsizeAny start)
    (hchar : c.atttypid = ColumnSlots.bpcharOid →
      varHeader (t.data start) < t.varsizeAny start)
    (hnumeric : c.atttypid = ColumnSlots.numericOid → ∀ a,
      a = numericAttribute detoast (t.bytesAt start (t.size c.toCompactAttribute start)) →
      a.stored.isSpecial = false → a.stored.WellFormed) :
    (Decoded array old input.numericScale
        (fetch (decodeNumeric detoast) kind c.atttypmod (t.bytesAt start (t.width kind start)))
        (attributeValue detoast c input.sourceDecodeKind
          (t.bytesAt start (t.size c.toCompactAttribute start))) ∧
      t.hoff + start + max 1 (t.width kind start) ≤ t.len) ↔
      AttributeFits detoast t c input old start := by
  have hlen := lengthOf hin.kind
  have hpos : 0 < varHeader (t.data start) := by
    rw [varHeader]
    split_ifs <;> omega
  cases hsource : input.sourceDecodeKind with
  | int32Char =>
    rw [hsource] at hkind
    obtain rfl := Option.some.inj hkind
    exact char_iff hin hsource harray hend hchar
  | int32Date =>
    rw [hsource] at hkind hlen
    obtain rfl := Option.some.inj hkind
    obtain ⟨hown, hscale⟩ := own_of_kind hin (by rw [hsource]; decide) (by rw [hsource]; decide)
    rw [hsource] at hown hscale
    rw [hown] at harray
    obtain rfl := Option.some.inj harray
    have hsize : t.size c.toCompactAttribute start = 4 := by
      rw [HeapTuple.size, show c.attlen = _ from hlen]
      rfl
    rw [hsize] at hend
    unfold AttributeFits
    rw [hsource, hsize, hscale, numericScale_eq_zero (by decide)]
    refine iff_of_true ⟨?_, ?_⟩ trivial
    · refine decoded_int32.2 ?_
      rw [pow_zero, mul_one]
      rfl
    · rw [HeapTuple.width]
      omega
  | int32Int4 =>
    rw [hsource] at hkind hlen
    obtain rfl := Option.some.inj hkind
    have hsize : t.size c.toCompactAttribute start = 4 := by
      rw [HeapTuple.size, show c.attlen = _ from hlen]
      rfl
    rw [hsize] at hend
    have hiff := @int4_iff c input old hin hsource (t.bytesAt start 4) array harray
    unfold AttributeFits
    rw [hsource, hsize]
    refine Iff.trans ?_ hiff
    exact and_iff_left (by rw [HeapTuple.width]; omega)
  | int64Int8 =>
    rw [hsource] at hkind hlen
    obtain rfl := Option.some.inj hkind
    have hsize : t.size c.toCompactAttribute start = 8 := by
      rw [HeapTuple.size, show c.attlen = _ from hlen]
      rfl
    rw [hsize] at hend
    have hiff := @int8_iff c input old hin hsource (t.bytesAt start 8) array harray
    unfold AttributeFits
    rw [hsource, hsize]
    refine Iff.trans ?_ hiff
    exact and_iff_left (by rw [HeapTuple.width]; omega)
  | int64NumericScaled =>
    rw [hsource] at hkind hlen
    obtain rfl := Option.some.inj hkind
    have hsize : t.size c.toCompactAttribute start = t.varsizeAny start := by
      rw [HeapTuple.size, hlen.2]
      rfl
    have hle := hheader hlen.2
    have hiff := @numeric_iff detoast c input old hin hsource _ array harray
      fun h => hnumeric hlen.1 _ rfl h
    unfold AttributeFits
    rw [hsource]
    rw [hsize] at hend hiff ⊢
    refine Iff.trans ?_ hiff
    exact and_iff_left (by rw [HeapTuple.width]; omega)
  | stringRef =>
    rw [hsource] at hkind hlen
    obtain rfl := Option.some.inj hkind
    obtain ⟨hown, hscale⟩ := own_of_kind hin (by rw [hsource]; decide) (by rw [hsource]; decide)
    rw [hsource] at hown
    rw [hown] at harray
    obtain rfl := Option.some.inj harray
    have hsize : t.size c.toCompactAttribute start = t.varsizeAny start := by
      rw [HeapTuple.size, show c.attlen = none from hlen]
      rfl
    have hle := hheader hlen
    unfold AttributeFits
    rw [hsource]
    rw [hsize] at hend ⊢
    refine Iff.trans ?_ (@decoded_string old input.numericScale _ _)
    exact and_iff_left (by rw [HeapTuple.width]; omega)
  | doubleFloat8 =>
    rw [hsource] at hkind
    cases hkind

end Attribute

end FilterScratch
end PgYaap
