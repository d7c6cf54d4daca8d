import PgYaap.JitDeform

/-! # Where the compiled deformer agrees

The generated blocks follow the walk of the interpreter as long as each attribute has one target
and no out-of-line value stands in front of another target. What is left is a matter of single
attributes: a numeric is read at scale two, and a tuple with fewer attributes ends the walk. -/
namespace PgYaap
namespace JitDeform

open HeapTuples FilterScratch StoredNumeric NumericColumns

/-! ## Numerics -/

section Numerics

variable {n : NumericDatum}

theorem narrow_wide (x : Int) : narrow (wide x) = narrow x :=
  Int.bmod_bmod_of_dvd (by norm_num)

theorem narrow_add (x y : Int) : narrow (narrow x + y) = narrow (x + y) :=
  Int.bmod_add_bmod

theorem narrow_mul (x y : Int) : narrow (narrow x * y) = narrow (x * y) :=
  Int.bmod_mul_bmod

theorem narrow_neg (x : Int) : narrow (-narrow x) = narrow (-x) := by
  have h := narrow_mul x (-1)
  rwa [Int.mul_neg_one, Int.mul_neg_one] at h

theorem narrow_of_fits {x : Int} (h : FitsInt64 x) : narrow x = x := by
  obtain ⟨hlo, hhi⟩ := h
  have hlo' : -2 ^ 63 ≤ x := by exact_mod_cast hlo
  have hhi' : x ≤ 2 ^ 63 - 1 := by exact_mod_cast hhi
  exact Int.bmod_eq_of_le (by norm_num; omega) (by norm_num; omega)

/-- The loop over the digits before the point, in 64 bits and in 128. -/
theorem foldl_narrow (count : Nat) :
    (List.range count).foldl (fun accum i => narrow (narrow (accum * 10000) + n.digit i)) 0 =
      narrow ((List.range count).foldl
        (fun accum i => wide (wide (accum * 10000) + n.digit i)) 0) := by
  induction count with
  | zero => rfl
  | succ count ih =>
    rw [List.range_succ, List.foldl_append, List.foldl_append, ih]
    show narrow (narrow (narrow _ * 10000) + n.digit count) =
      narrow (wide (wide (_ * 10000) + n.digit count))
    rw [narrow_mul, narrow_wide, ← narrow_add (wide _), narrow_wide]

/-- The digits before the point, in 128 bits. -/
def wideInteger (n : NumericDatum) : Int :=
  (List.range (n.weight + 1).toNat).foldl
    (fun accum i => wide (wide (accum * 10000) + n.digit i)) 0

/-- The first digit behind the point. -/
def firstDecimals (n : NumericDatum) : Int :=
  if 0 ≤ n.weight + 1 then n.digit (n.weight + 1).toNat else 0

/-- Whether a digit behind that is not zero. -/
def MoreDecimals (n : NumericDatum) : Prop :=
  ∃ i < n.digits.length, n.weight + 1 + 1 ≤ (i : Int) ∧ n.digit i ≠ 0

instance (n : NumericDatum) : Decidable (MoreDecimals n) :=
  inferInstanceAs (Decidable (∃ i < n.digits.length, _ ∧ _))

/-- The digits with two decimals and the sign, in 128 bits. -/
def wideHundredfold (n : NumericDatum) : Int :=
  let accum := wide (wide (wide (wideInteger n * 10) * 10) + (firstDecimals n).tdiv 100)
  if n.negative then wide (-accum) else accum

theorem tryFast_two (n : NumericDatum) :
    tryFastNumericToScaledInt64 n 2 =
      if n.isSpecial then none
      else if 2 < n.dscale then none
      else if (firstDecimals n).tmod 100 ≠ 0 then none
      else if MoreDecimals n then none
      else if FitsInt64 (wideHundredfold n) then some (wideHundredfold n) else none := by
  rw [tryFastNumericToScaledInt64]
  by_cases hspecial : n.isSpecial = true
  · rw [if_pos hspecial, if_pos hspecial]
  · rw [if_neg hspecial, if_neg hspecial, if_neg (by norm_num)]
    by_cases hdscale : 2 < n.dscale
    · rw [if_pos (Or.inr (by exact_mod_cast hdscale)), if_pos hdscale]
    · have hle : ¬(4 < n.dscale ∨ (2 : Int) < n.dscale) := by omega
      rw [if_neg hle, if_neg hdscale]
      simp only [show (0 : Int) < 2 from by norm_num, true_and, if_true]
      rfl

/-- The blocks of the helper. -/
theorem scale2Digits_eq (n : NumericDatum) :
    scale2Digits n =
      if (firstDecimals n).tmod 100 ≠ 0 then none
      else if MoreDecimals n then none
      else some (narrow (wideHundredfold n)) := by
  have hdigits : narrow (narrow (narrow (wideInteger n) * 100) + (firstDecimals n).tdiv 100) =
      narrow (wide (wide (wide (wideInteger n * 10) * 10) + (firstDecimals n).tdiv 100)) := by
    rw [narrow_wide, ← narrow_add (wide _), narrow_wide, ← narrow_mul (wide _), narrow_wide,
      narrow_mul, narrow_mul, mul_assoc]
    rfl
  have hfold : scale2Digits n =
      if (firstDecimals n).tmod 100 ≠ 0 then none
      else if MoreDecimals n then none
      else some (if n.negative then
        narrow (-narrow (narrow (narrow (wideInteger n) * 100) + (firstDecimals n).tdiv 100))
        else narrow (narrow (narrow (wideInteger n) * 100) + (firstDecimals n).tdiv 100)) := by
    rw [wideInteger, ← foldl_narrow]
    rfl
  rw [hfold, hdigits, wideHundredfold]
  by_cases hneg : n.negative = true
  · rw [if_pos hneg, if_pos hneg, narrow_neg, narrow_wide]
  · rw [if_neg hneg, if_neg hneg]

/-- What the digits read at scale two say, the helper says. -/
theorem scale2Digits_of_read {scaled : Int}
    (h : tryFastNumericToScaledInt64 n 2 = some scaled) :
    n.isSpecial = false ∧ n.dscale ≤ 2 ∧ scale2Digits n = some scaled := by
  rw [tryFast_two] at h
  split_ifs at h with hspecial hdscale hfrac hmore hfits
  cases h
  rw [scale2Digits_eq, if_neg hfrac, if_neg hmore, narrow_of_fits hfits]
  exact ⟨Bool.not_eq_true _ ▸ hspecial, Nat.not_lt.1 hdscale, rfl⟩

/-! ### The helpers -/

section Helpers

variable {typmod : Int} {bytes : List UInt8}

theorem storeNumericInt64Fast_of_read {scaled : Int}
    (h : tryFastNumericToScaledInt64 (numericDatum (vardataAny bytes)) 2 = some scaled) :
    storeNumericInt64Fast bytes = .ok scaled := by
  rw [storeNumericInt64Fast, h]
  rfl

/-- A numeric that is read at scale two is stored, whichever helper is called. -/
theorem storeNumeric_of_read {scaled : Int}
    (h : tryFastNumericToScaledInt64 (numericDatum (vardataAny bytes)) 2 = some scaled) :
    storeNumeric typmod bytes = .ok scaled := by
  rw [storeNumeric, numericScale2FastStore, (scale2Digits_of_read h).2.2,
    storeNumericInt64Fast_of_read h]
  dsimp only [Option.elim_some]
  split_ifs <;> rfl

/-- An error, where it is not read and the helper for scale two is not called or falls back. -/
theorem storeNumeric_of_not_read
    (h : tryFastNumericToScaledInt64 (numericDatum (vardataAny bytes)) 2 = none)
    (hother : getNumericScaleFromTypmod typmod ≠ 2 ∨ isToasted bytes = true ∨
      2 < (numericDatum (vardataAny bytes)).dscale) :
    ∃ e, storeNumeric typmod bytes = .error e := by
  have hfast : storeNumericInt64Fast bytes =
      .error "pg_yaap fast numeric decode failed inside deform JIT helper" := by
    rw [storeNumericInt64Fast, h]
    rfl
  rw [storeNumeric]
  rcases hother with hscale | hfallback
  · exact ⟨_, by rw [if_neg hscale, hfast]⟩
  · have hback : numericScale2FastStore bytes = storeNumericInt64Fast bytes := by
      rw [numericScale2FastStore]
      refine if_pos ?_
      rcases hfallback with htoasted | hdscale
      · exact .inl htoasted
      · exact .inr (.inr (.inr (.inr hdscale)))
    exact ⟨_, by rw [hback, ite_self, hfast]⟩

/-- What the interpreter makes of a numeric that raises no error. -/
theorem deform_of_not_raises {a : NumericAttribute} (h : ¬NumericRaises typmod a) :
    deformNumericAttribute typmod a = .ok
      ((tryFastNumericToScaledInt64 a.inPlace (getNumericScaleFromTypmod typmod)).getD
        (roundHalfAwayFromZero (a.stored.value * 100))) := by
  rw [deformNumericAttribute]
  cases hread : tryFastNumericToScaledInt64 a.inPlace (getNumericScaleFromTypmod typmod) with
  | some scaled => rfl
  | none =>
    rw [NumericRaises, not_and] at h
    obtain ⟨hspecial, hfits⟩ := not_or.1 (h hread)
    show (if a.stored.isSpecial then _ else numericInt8 _) = _
    rw [if_neg hspecial, numericInt8, if_pos (not_not.1 hfits)]
    rfl

/-- Of a numeric in place with at most two decimals, the integer read at scale two. -/
theorem read_two (hwf : n.WellFormed) (hdscale : n.dscale ≤ 2) :
    ∃ x : Int, (x : ℚ) = n.value * 100 ∧
      tryFastNumericToScaledInt64 n 2 = if FitsInt64 (wide x) then some (wide x) else none := by
  obtain ⟨x, hx, hread⟩ := @read_of_digitsRead n hwf 2 ⟨by norm_num, by norm_num, by omega⟩
  exact ⟨x, by rw [hx]; norm_num, hread⟩

/-- Two integers have the same residue where their difference is a multiple. -/
theorem wide_eq_wide_iff {x y : Int} : wide x = wide y ↔ ∃ k : Int, x - y = k * 2 ^ 128 := by
  rw [wide, wide, Int.bmod_eq_bmod_iff_bmod_sub_eq_zero, ← Int.dvd_iff_bmod_eq_zero]
  constructor
  · rintro ⟨k, hk⟩
    exact ⟨k, by rw [hk, mul_comm]; norm_num⟩
  · rintro ⟨k, hk⟩
    exact ⟨k, by rw [hk, mul_comm]; norm_num⟩

/-- Numerics in place. -/
theorem inline_agrees_iff (hstored : n.isSpecial = false → n.WellFormed)
    (hread : n = numericDatum (vardataAny bytes)) (hraises : ¬NumericRaises typmod (.inline n)) :
    storeNumeric typmod bytes = deformNumericAttribute typmod (.inline n) ↔
      NumericAgrees typmod (.inline n) := by
  rw [deform_of_not_raises hraises]
  dsimp only [NumericAttribute.inPlace, NumericAttribute.stored] at hraises ⊢
  have hfinite : n.isSpecial = false := by
    by_contra hspecial
    have hspecial : n.isSpecial = true := Bool.not_eq_false _ ▸ hspecial
    exact hraises ⟨by rw [NumericAttribute.inPlace, tryFastNumericToScaledInt64, if_pos hspecial],
      .inl hspecial⟩
  have hwf := hstored hfinite
  by_cases hdscale : n.dscale ≤ 2
  · obtain ⟨x, hx, htwo⟩ := read_two hwf hdscale
    rw [NumericAgrees, and_iff_right hdscale]
    cases hscaled : tryFastNumericToScaledInt64 n (getNumericScaleFromTypmod typmod) with
    | some scaled =>
      have hdigits : DigitsRead n (getNumericScaleFromTypmod typmod) := by
        by_contra hnot
        rw [tryFastNumericToScaledInt64_eq_none hnot] at hscaled
        cases hscaled
      obtain ⟨y, hy, hfast⟩ := read_of_digitsRead hwf hdigits
      rw [hscaled] at hfast
      have hfits : FitsInt64 (wide y) := by
        by_contra hnot
        rw [if_neg hnot] at hfast
        cases hfast
      rw [if_pos hfits] at hfast
      obtain rfl := Option.some.inj hfast
      have hdiff : (∃ k : Int, n.value * (10 ^ getNumericScaleFromTypmod typmod - 100) =
          k * 2 ^ 128) ↔ wide y = wide x := by
        rw [wide_eq_wide_iff, mul_sub, ← hx, ← hy]
        exact exists_congr fun k => by exact_mod_cast Iff.rfl
      rw [hdiff, Option.getD_some]
      constructor
      · intro h _
        by_cases hscale : getNumericScaleFromTypmod typmod = 2
        · rw [hscale] at hy
          have hxy : (x : ℚ) = y := by rw [hx, hy]; norm_num
          rw [show x = y by exact_mod_cast hxy]
        · cases hsecond : tryFastNumericToScaledInt64 n 2 with
          | none =>
            rw [hread] at hsecond
            obtain ⟨e, he⟩ := storeNumeric_of_not_read hsecond (.inl hscale)
            rw [he] at h
            cases h
          | some other =>
            have hother := hsecond
            rw [hread] at hsecond
            rw [storeNumeric_of_read hsecond] at h
            rw [htwo] at hother
            split at hother
            · rw [← Except.ok.inj h, Option.some.inj hother]
            · cases hother
      · intro h
        have hsame := h (Option.some_ne_none _)
        rw [← hsame, if_pos hfits] at htwo
        rw [hread] at htwo
        exact storeNumeric_of_read htwo
    | none =>
      -- the rounded hundredfold is exact, in range and read at scale two
      have hround : roundHalfAwayFromZero (n.value * 100) = x := by
        rw [← hx, roundHalfAwayFromZero_intCast]
      have hrange : FitsInt64 x := by
        by_contra hnot
        refine hraises ⟨hscaled, .inr ?_⟩
        rw [NumericAttribute.stored, hround]
        exact hnot
      rw [wide_eq_of_fitsInt64 hrange, if_pos hrange, hread] at htwo
      refine iff_of_true ?_ fun hnone => absurd rfl hnone
      rw [Option.getD_none, hround]
      exact storeNumeric_of_read htwo
  · have hnone : tryFastNumericToScaledInt64 n 2 = none :=
      tryFastNumericToScaledInt64_eq_none (by omega)
    rw [hread] at hnone
    obtain ⟨e, he⟩ := @storeNumeric_of_not_read typmod bytes hnone
      (.inr (.inr (by rw [← hread]; omega)))
    rw [he, NumericAgrees]
    exact iff_of_false (fun h => by cases h) fun h => hdscale h.1

/-- Numerics that are compressed or out of line. -/
theorem toasted_agrees_iff {inPlace : NumericDatum} (htoasted : isToasted bytes = true)
    (hread : inPlace = numericDatum (vardataAny bytes))
    (hraises : ¬NumericRaises typmod (.toasted inPlace n)) :
    storeNumeric typmod bytes = deformNumericAttribute typmod (.toasted inPlace n) ↔
      NumericAgrees typmod (.toasted inPlace n) := by
  rw [deform_of_not_raises hraises]
  have hsecond : ∀ scaled, storeNumeric typmod bytes = .ok scaled ↔
      tryFastNumericToScaledInt64 inPlace 2 = some scaled := by
    intro scaled
    cases htwo : tryFastNumericToScaledInt64 inPlace 2 with
    | none =>
      rw [hread] at htwo
      obtain ⟨e, he⟩ := @storeNumeric_of_not_read typmod bytes htwo (.inr (.inl htoasted))
      rw [he]
      exact iff_of_false nofun nofun
    | some other =>
      rw [hread] at htwo
      rw [storeNumeric_of_read htwo]
      exact ⟨fun h => congrArg some (Except.ok.inj h), fun h => congrArg _ (Option.some.inj h)⟩
  rw [hsecond]
  unfold NumericAgrees
  dsimp only [NumericAttribute.inPlace, NumericAttribute.stored]
  cases tryFastNumericToScaledInt64 inPlace (getNumericScaleFromTypmod typmod) with
  | some scaled => rfl
  | none => rfl

/-- **Numerics**: where the interpreter raises no error, the generated code stores the same
number if and only if both read it alike. -/
theorem numeric_agrees_iff {detoast : List UInt8 → List UInt8}
    (hstored : (numericAttribute detoast bytes).stored.isSpecial = false →
      (numericAttribute detoast bytes).stored.WellFormed)
    (hraises : ¬NumericRaises typmod (numericAttribute detoast bytes)) :
    storeNumeric typmod bytes = deformNumericAttribute typmod (numericAttribute detoast bytes) ↔
      NumericAgrees typmod (numericAttribute detoast bytes) := by
  rw [numericAttribute] at hstored hraises ⊢
  by_cases htoasted : isToasted bytes = true
  · rw [if_pos htoasted] at hraises ⊢
    exact toasted_agrees_iff htoasted rfl hraises
  · rw [if_neg htoasted] at hstored hraises ⊢
    exact inline_agrees_iff hstored rfl hraises

end Helpers

end Numerics

/-! ## One attribute -/

section Attribute

variable {detoast : List UInt8 → List UInt8} {t : HeapTuple} {typmod : Int} {start : Nat}

theorem fits_narrow (x : Int) : FitsInt64 (narrow x) := by
  have hlo := @Int.le_bmod x (2 ^ 64) (by norm_num)
  have hhi := @Int.bmod_lt x (2 ^ 64) (by norm_num)
  constructor
  · have hlo' : -2 ^ 63 ≤ narrow x := by rw [narrow]; omega
    exact_mod_cast hlo'
  · have hhi' : narrow x ≤ 2 ^ 63 - 1 := by rw [narrow]; omega
    exact_mod_cast hhi'

/-- Whatever is stored for a numeric is an `int64`. -/
theorem fits_of_storeNumeric {bytes : List UInt8} {scaled : Int}
    (h : storeNumeric typmod bytes = .ok scaled) : FitsInt64 scaled := by
  have hfast : ∀ {scaled}, storeNumericInt64Fast bytes = .ok scaled → FitsInt64 scaled := by
    intro scaled h
    rw [storeNumericInt64Fast] at h
    cases hread : tryFastNumericToScaledInt64 (numericDatum (vardataAny bytes)) 2 with
    | none =>
      rw [hread] at h
      cases h
    | some other =>
      rw [hread] at h
      cases h
      exact fitsInt64_of_read hread
  rw [storeNumeric] at h
  split at h
  · rw [numericScale2FastStore] at h
    split at h
    · exact hfast h
    · rw [scale2Digits_eq] at h
      split_ifs at h
      · exact hfast h
      · exact hfast h
      · cases h
        exact fits_narrow _
  · exact hfast h

/-- Errors of the interpreter at an attribute. -/
def RaisesAt (detoast : List UInt8 → List UInt8) (t : HeapTuple)
    (kind : HeapColumns.DeformDecodeKind) (typmod : Int) (start : Nat) : Prop :=
  match kind with
  | .numeric => NumericRaises typmod
      (numericAttribute detoast (t.bytesAt start (t.varsizeAny start)))
  | .stringRef => 65536 < (vardataAny (t.bytesAt start (t.varsizeAny start))).length
  | _ => False

/-- What the interpreter makes of an attribute. -/
abbrev fetched (detoast : List UInt8 → List UInt8) (t : HeapTuple)
    (kind : HeapColumns.DeformDecodeKind) (typmod : Int) (start : Nat) : Except String Datum :=
  fetch (decodeNumeric detoast) kind typmod (t.bytesAt start (t.width kind start))

theorem raisesAt_iff {kind : HeapColumns.DeformDecodeKind} :
    (∃ e, fetched detoast t kind typmod start = .error e) ↔
      RaisesAt detoast t kind typmod start := by
  cases kind with
  | int32 | date32 | int64 | float8 | bpchar1 =>
    refine iff_of_false ?_ id
    rintro ⟨e, he⟩
    cases he
  | stringRef =>
    show (∃ e, HeapColumns.storeStringBytes _ = .error e) ↔ 65536 < _
    rw [HeapColumns.storeStringBytes]
    split
    · next h => exact iff_of_true ⟨_, rfl⟩ h
    · next h =>
      refine iff_of_false ?_ h
      rintro ⟨e, he⟩
      cases he
  | numeric =>
    show (∃ e, decodeNumeric detoast typmod _ = .error e) ↔ NumericRaises typmod _
    rw [decodeNumeric]
    by_cases hraises : NumericRaises typmod
      (numericAttribute detoast (t.bytesAt start (t.varsizeAny start)))
    · refine iff_of_true ?_ hraises
      obtain ⟨hread, hstored⟩ := hraises
      show ∃ e, Except.map _ (deformNumericAttribute typmod
        (numericAttribute detoast (t.bytesAt start (t.varsizeAny start)))) = _
      rw [deformNumericAttribute, hread]
      dsimp only
      by_cases hspecial : (numericAttribute detoast
          (t.bytesAt start (t.varsizeAny start))).stored.isSpecial = true
      · exact ⟨_, by rw [if_pos hspecial]; rfl⟩
      · exact ⟨_, by rw [if_neg hspecial, numericInt8, if_neg (hstored.resolve_left hspecial)]; rfl⟩
    · refine iff_of_false ?_ hraises
      rintro ⟨e, he⟩
      have he : Except.map _ (deformNumericAttribute typmod
        (numericAttribute detoast (t.bytesAt start (t.varsizeAny start)))) = _ := he
      rw [deform_of_not_raises hraises] at he
      cases he

/-- **One attribute** that raises no error. -/
theorem kindAgrees_iff {kind : HeapColumns.DeformDecodeKind}
    (hstored : kind = .numeric →
      (numericAttribute detoast (t.bytesAt start (t.varsizeAny start))).stored.isSpecial = false →
      (numericAttribute detoast (t.bytesAt start (t.varsizeAny start))).stored.WellFormed)
    (hraises : ¬RaisesAt detoast t kind typmod start) :
    storeTargetNotnull t kind typmod start = fetched detoast t kind typmod start ↔
      KindAgrees detoast t kind typmod start := by
  cases kind with
  | int32 | date32 | int64 | float8 | stringRef => exact iff_of_true rfl trivial
  | bpchar1 =>
    have hfetch : fetched detoast t .bpchar1 typmod start =
        .ok (.int32 (Int32.ofNat (t.data (start + varHeader (t.data start))).toNat)) := by
      rw [fetched, fetch, HeapTuple.width, headD_vardataAny (Nat.lt_succ_self _)]
    rw [hfetch]
    show Except.ok (Datum.int32 (storeBpchar1Int32 t start)) = _ ↔ _ ∨ _
    rw [storeBpchar1Int32]
    by_cases hlt : varHeader (t.data start) < t.varsizeAny start
    · rw [if_pos hlt]
      exact iff_of_true rfl (.inl hlt)
    · rw [if_neg hlt]
      have hzero : (0 : Int32) = Int32.ofNat (0 : UInt8).toNat := rfl
      rw [hzero, or_iff_right hlt]
      constructor
      · intro h
        have hsame := congrArg Int32.toInt (Datum.int32.inj (Except.ok.inj h))
        rw [toInt_byte, toInt_byte] at hsame
        exact (UInt8.toNat_inj.1 (by exact_mod_cast hsame)).symm
      · intro h
        rw [h]
  | numeric =>
    have hnum := hstored rfl
    have hiff := @numeric_agrees_iff typmod (t.bytesAt start (t.varsizeAny start)) detoast hnum
      hraises
    show Except.map _ (storeNumeric typmod _) = Except.map _ (deformNumericAttribute typmod
      (numericAttribute detoast (t.bytesAt start (t.varsizeAny start)))) ↔ NumericAgrees typmod _
    rw [← hiff]
    constructor
    · intro h
      have hdeform := deform_of_not_raises hraises
      rw [hdeform] at h ⊢
      cases hstore : storeNumeric typmod (t.bytesAt start (t.varsizeAny start)) with
      | error e =>
        rw [hstore] at h
        cases h
      | ok scaled =>
        rw [hstore] at h
        have hsame := congrArg Int64.toInt (Datum.int64.inj (Except.ok.inj h))
        rw [toInt_ofInt_of_fits (fits_of_storeNumeric hstore),
          toInt_ofInt_of_fits (fitsInt64_of_deform hdeform)] at hsame
        rw [hsame]
    · intro h
      rw [h]

end Attribute

/-! ## Repeated targets -/

section Repeated

variable {target : DeformTarget} {targets : List DeformTarget} {k : Nat}

theorem firstOfEach_cons : firstOfEach (target :: targets) =
    target :: if isTarget targets target.attIndex then [] else firstOfEach targets := by
  cases targets with
  | nil => rfl
  | cons next targets =>
    have hiff : isTarget (next :: targets) target.attIndex = true ↔
        next.attIndex = target.attIndex := by
      rw [isTarget, List.head?_cons, Option.any_some, decide_eq_true_iff]
    rw [firstOfEach]
    by_cases h : next.attIndex = target.attIndex
    · rw [if_pos h, if_pos (hiff.2 h)]
    · rw [if_neg h, if_neg (mt hiff.1 h)]

theorem repeated_cons : repeated (target :: targets) =
    if isTarget targets target.attIndex then targets else repeated targets := by
  rw [repeated, firstOfEach_cons]
  split
  · rfl
  · rfl

theorem firstOfEach_append : firstOfEach targets ++ repeated targets = targets := by
  induction targets with
  | nil => rfl
  | cons target targets ih =>
    rw [firstOfEach_cons, repeated_cons]
    split
    · rfl
    · rw [List.cons_append, ih]

/-- Sorted targets from an attribute on, none of which is of it. -/
theorem lt_of_not_isTarget (hsorted : targets.Pairwise fun a b => a.attIndex ≤ b.attIndex)
    (hge : ∀ target ∈ targets, k ≤ target.attIndex) (hnot : ¬isTarget targets k = true) :
    ∀ target ∈ targets, k + 1 ≤ target.attIndex := by
  cases targets with
  | nil => exact fun target h => nomatch h
  | cons first rest =>
    have hne : first.attIndex ≠ k := by
      rw [isTarget, List.head?_cons, Option.any_some, decide_eq_true_iff] at hnot
      exact hnot
    have hfirst : k + 1 ≤ first.attIndex :=
      Nat.lt_of_le_of_ne (hge first List.mem_cons_self) hne.symm
    intro target h
    rcases List.mem_cons.1 h with rfl | h
    · exact hfirst
    · exact hfirst.trans ((List.pairwise_cons.1 hsorted).1 target h)

end Repeated

/-! ## The walk -/

section Walk

variable {t : HeapTuple} {desc : List JitAttribute}

/-- What a block stores for a target of its attribute. -/
def jitWrite (t : HeapTuple) (desc : List JitAttribute) (target : DeformTarget) : Write :=
  ⟨target.dstCol, if t.natts ≤ target.attIndex then none
    else desc[target.attIndex]?.bind fun att =>
      if t.isnull target.attIndex then none
      else some (storeTargetNotnull t target.decodeKind att.atttypmod
        (t.startOf (compactDesc desc) att.toCompactAttribute target.attIndex))⟩

/-- A NULL. -/
def nullWrite (target : DeformTarget) : Write := ⟨target.dstCol, none⟩

/-- Once a target is passed over, none gets code any more; a tuple with fewer attributes leaves
them NULL. -/
theorem run_stuck {atts : List JitAttribute} {k off : Nat} {targets : List DeformTarget}
    (hpassed : ∀ target ∈ targets.head?, target.attIndex < k) (hk : k ≤ t.natts) :
    run t (compileFrom atts k targets) off =
      if t.natts < k + atts.length then targets.map nullWrite else [] := by
  induction atts generalizing k off with
  | nil =>
    rw [compileFrom, run, if_neg]
    rw [List.length_nil]
    omega
  | cons att atts ih =>
    have hnot : isTarget targets k = false := by
      rw [isTarget]
      cases hhead : targets.head? with
      | none => rfl
      | some target =>
        have hlt := hpassed target hhead
        rw [Option.any_some, decide_eq_false_iff_not]
        omega
    rw [compileFrom, run, hnot]
    dsimp only
    rw [List.length_cons]
    by_cases hend : t.natts ≤ k
    · rw [if_pos hend, if_pos (by omega)]
      rfl
    · have hrest := fun off => @ih (k + 1) off
        (fun target h => (hpassed target h).trans (Nat.lt_succ_self k)) (by omega)
      rw [if_neg hend, show k + (atts.length + 1) = k + 1 + atts.length by omega]
      split
      · exact hrest off
      · exact hrest _

/-- The alignment that is generated. -/
theorem apply_alignOf {att : CompactAttribute} (halign : 0 < att.attalignby) (off : Nat) :
    (alignOf att).apply t off = t.alignAtt att off := by
  rw [alignOf, HeapTuple.alignAtt]
  by_cases hone : 1 < att.attalignby
  · rw [if_pos hone]
    by_cases hlen : att.attlen = none
    · rw [if_pos hlen, AttAlign.apply]
      by_cases hpad : t.data off = 0
      · rw [if_pos hpad, if_neg fun h => h.2 hpad]
      · rw [if_neg hpad, if_pos ⟨hlen, hpad⟩]
    · rw [if_neg hlen, if_neg fun h => hlen h.1, AttAlign.apply]
  · have hby : att.attalignby = 1 := by omega
    rw [if_neg hone, hby, AttAlign.apply]
    have hnominal : attNominalAlignby off 1 = off := by
      rw [attNominalAlignby, Nat.add_sub_cancel, Nat.div_one, Nat.mul_one]
    rw [hnominal, ite_self]

/-- The step of the offset, behind a value that is not out of line. -/
theorem incby_eq {block : AttBlock} {att : CompactAttribute} (hblock : block.attlen = att.attlen)
    {start : Nat} (hinline : att.attlen = none → t.data start ≠ 1) :
    block.incby t start = t.size att start := by
  rw [AttBlock.incby, HeapTuple.size, hblock]
  cases hlen : att.attlen with
  | some len => rfl
  | none =>
    rw [Option.getD_none, HeapTuple.varsizeAny, if_neg (hinline hlen)]
    by_cases hodd : (t.data start).toNat % 2 = 1
    · rw [if_pos hodd, if_pos hodd]
    · rw [if_neg hodd, if_neg hodd]

theorem compactDesc_getElem? {k : Nat} {att : JitAttribute} (h : desc[k]? = some att) :
    (compactDesc desc)[k]? = some att.toCompactAttribute := by
  rw [compactDesc, List.getElem?_map, h]
  rfl

/-- The block of an attribute that the tuple has. -/
theorem run_cons {att : JitAttribute} {atts : List JitAttribute} {k off : Nat}
    {targets : List DeformTarget} (hk : k < t.natts) (halign : 0 < att.attalignby)
    (hvalid : att.attnullabilityValid = true → t.isnull k = false) :
    ∃ off', ((t.isnull k = false → att.attlen = none →
        t.data (t.alignAtt att.toCompactAttribute off) ≠ 1) →
          off' = t.next att.toCompactAttribute k off) ∧
      run t (compileFrom (att :: atts) k targets) off =
        (if isTarget targets k then targets.head? else none).toList.map (fun target =>
          ⟨target.dstCol, if t.isnull k then none
            else some (storeTargetNotnull t target.decodeKind att.atttypmod
              (t.alignAtt att.toCompactAttribute off))⟩) ++
          run t (compileFrom atts (k + 1) (if isTarget targets k then targets.tail else targets))
            off' := by
  rw [compileFrom, run, if_neg (Nat.not_le.2 hk)]
  dsimp only
  have hchecks : (!att.attnullabilityValid && t.isnull k) = t.isnull k := by
    cases hnull : t.isnull k with
    | false => rw [Bool.and_false]
    | true =>
      rw [Bool.and_true, Bool.not_eq_true']
      by_contra h
      rw [hvalid (Bool.not_eq_false _ ▸ h)] at hnull
      cases hnull
  rw [hchecks, apply_alignOf halign]
  cases hnull : t.isnull k with
  | true =>
    refine ⟨off, fun _ => ?_, rfl⟩
    rw [HeapTuple.next, if_pos hnull]
  | false =>
    refine ⟨_, fun hinline => ?_, rfl⟩
    rw [HeapTuple.next, hnull, if_neg Bool.false_ne_true]
    exact congrArg _ (incby_eq rfl (hinline rfl))

/-- The head of the targets at an attribute. -/
theorem exists_of_isTarget {targets : List DeformTarget} {k : Nat}
    (h : isTarget targets k = true) :
    ∃ target rest, targets = target :: rest ∧ target.attIndex = k := by
  cases targets with
  | nil => cases h
  | cons target rest =>
    rw [isTarget, List.head?_cons, Option.any_some, decide_eq_true_iff] at h
    exact ⟨target, rest, rfl, h⟩

/-- **What the generated function writes**: for the targets up to the first repeated one what
their blocks store; for those behind it nothing, or NULL where the tuple ends before the walk. -/
theorem run_eq {pre atts post : List JitAttribute} (hdesc : desc = pre ++ atts ++ post)
    (halign : ∀ att ∈ desc, 0 < att.attalignby)
    (hnotNull : ∀ (k : Nat) (att : JitAttribute), desc[k]? = some att →
      att.attnullabilityValid = true → k < t.natts → t.isnull k = false)
    (hinline : ∀ (k : Nat) (att : JitAttribute), k + 1 < pre.length + atts.length → k < t.natts →
      desc[k]? = some att → t.isnull k = false → att.attlen = none →
        t.data (t.startOf (compactDesc desc) att.toCompactAttribute k) ≠ 1)
    (hk : pre.length ≤ t.natts) {off : Nat}
    (hoff : atts ≠ [] → off = t.offsetBehind (compactDesc pre) 0 0) {targets : List DeformTarget}
    (hsorted : targets.Pairwise fun a b => a.attIndex ≤ b.attIndex)
    (hrange : ∀ target ∈ targets, pre.length ≤ target.attIndex ∧
      target.attIndex < pre.length + atts.length) :
    run t (compileFrom atts pre.length targets) off =
      (firstOfEach targets).map (jitWrite t desc) ++
        if t.natts < pre.length + atts.length then (repeated targets).map nullWrite else [] := by
  induction atts generalizing pre off targets with
  | nil =>
    have hempty : targets = [] := List.eq_nil_iff_forall_not_mem.2 fun target h => by
      have := hrange target h
      simp only [List.length_nil] at this
      omega
    rw [hempty, compileFrom, run, if_neg]
    · rfl
    · rw [List.length_nil]
      omega
  | cons att atts ih =>
    have hatt : desc[pre.length]? = some att := by
      rw [hdesc, List.append_assoc, List.getElem?_append_right le_rfl, Nat.sub_self]
      rfl
    have hsum : pre.length + (att :: atts).length = pre.length + 1 + atts.length := by
      rw [List.length_cons]
      omega
    rw [hsum]
    by_cases hend : t.natts ≤ pre.length
    · -- all that is left is NULL
      have hnull : ∀ target ∈ firstOfEach targets, jitWrite t desc target = nullWrite target := by
        intro target h
        have hmem : target ∈ targets := @firstOfEach_append targets ▸ List.mem_append_left _ h
        rw [jitWrite, if_pos (hend.trans (hrange target hmem).1)]
        rfl
      rw [List.map_congr_left hnull, if_pos (by omega), ← List.map_append, firstOfEach_append,
        compileFrom, run, if_pos hend]
      rfl
    · have hlt : pre.length < t.natts := Nat.not_le.1 hend
      have hlength : (pre ++ [att]).length = pre.length + 1 := by simp
      have hstart : t.alignAtt att.toCompactAttribute off =
          t.startOf (compactDesc desc) att.toCompactAttribute pre.length := by
        have htake : (compactDesc desc).take pre.length = compactDesc pre := by
          rw [compactDesc, ← List.map_take, hdesc, List.append_assoc, List.take_left]
          rfl
        rw [HeapTuple.startOf, htake, hoff (List.cons_ne_nil _ _)]
      obtain ⟨off', hnext, hrun⟩ := @run_cons t att atts pre.length off targets hlt
        (halign att (List.mem_of_getElem? hatt)) fun h => hnotNull _ _ hatt h hlt
      have hoff' : atts ≠ [] → off' = t.offsetBehind (compactDesc (pre ++ [att])) 0 0 := by
        intro hne
        have hpos := List.length_pos_of_ne_nil hne
        rw [hnext fun hnull hlen => by
          rw [hstart]
          exact hinline _ att (by omega) hlt hatt hnull hlen, hoff (List.cons_ne_nil _ _)]
        have hsucc := @offsetBehind_succ t (compactDesc (pre ++ [att])) att.toCompactAttribute
          pre.length (by simp [compactDesc])
        rw [List.take_of_length_le (by simp [compactDesc])] at hsucc
        rw [hsucc]
        have htake : (compactDesc (pre ++ [att])).take pre.length = compactDesc pre := by
          simp [compactDesc]
        rw [htake]
      have hrest := fun rest hrestSorted hrestRange =>
        @ih (pre ++ [att]) (by simp [hdesc])
          (by
            rw [hlength, ← hsum]
            exact hinline)
          (by rw [hlength]; exact hlt) off' hoff' rest hrestSorted hrestRange
      rw [hlength] at hrest
      rw [hrun]
      by_cases his : isTarget targets pre.length = true
      · obtain ⟨target, rest, rfl, hat⟩ := exists_of_isTarget his
        have hwrite : (⟨target.dstCol, if t.isnull pre.length then none
            else some (storeTargetNotnull t target.decodeKind att.atttypmod
              (t.alignAtt att.toCompactAttribute off))⟩ : Write) = jitWrite t desc target := by
          rw [jitWrite, hat, if_neg hend, hatt, hstart]
          rfl
        rw [if_pos his, if_pos his, firstOfEach_cons, repeated_cons, hat]
        show (⟨_, _⟩ : Write) :: run t (compileFrom atts (pre.length + 1) rest) off' = _
        rw [hwrite, List.map_cons]
        have hge : ∀ target' ∈ rest, pre.length ≤ target'.attIndex := fun target' h =>
          (hrange target' (List.mem_cons_of_mem _ h)).1
        by_cases hagain : isTarget rest pre.length = true
        · obtain ⟨next, rest', rfl, hnextAt⟩ := exists_of_isTarget hagain
          rw [if_pos hagain, if_pos hagain, run_stuck _ hlt]
          · rfl
          · intro target' h
            obtain rfl := Option.some.inj h
            omega
        · have hlater := lt_of_not_isTarget hsorted.of_cons hge hagain
          rw [if_neg hagain, if_neg hagain, hrest rest hsorted.of_cons fun target' h =>
            ⟨hlater target' h, hsum ▸ (hrange target' (List.mem_cons_of_mem _ h)).2⟩]
          rfl
      · have hlater := lt_of_not_isTarget hsorted (fun target h => (hrange target h).1) his
        rw [if_neg his, if_neg his]
        exact hrest targets hsorted fun target h =>
          ⟨hlater target h, hsum ▸ (hrange target h).2⟩

end Walk

/-! ## Outcomes -/

/-- The write of a cell without an error. -/
def toWrite (cell : Nat × Option Datum) : Write := ⟨cell.1, cell.2.map Except.ok⟩

/-- What is in the row behind one write, or its error. -/
abbrev readBack (w : Write) : Except String (Nat × Option Datum) :=
  (w.cell.elim (.ok none) fun decoded => decoded.map some).map fun cell => (w.dstCol, cell)

theorem readBack_eq_ok_iff {w : Write} {cell : Nat × Option Datum} :
    readBack w = .ok cell ↔ w = toWrite cell := by
  obtain ⟨dst, written⟩ := w
  obtain ⟨dst', value⟩ := cell
  rcases written with - | e | d
  · show Except.ok (dst, none) = .ok (dst', value) ↔ (⟨dst, none⟩ : Write) = ⟨dst', value.map _⟩
    cases value with
    | none => simp
    | some d' => simp
  · show Except.error e = .ok (dst', value) ↔ (⟨dst, some (.error e)⟩ : Write) = ⟨dst', value.map _⟩
    cases value with
    | none => simp
    | some d' => simp
  · show Except.ok (dst, some d) = .ok (dst', value) ↔
      (⟨dst, some (.ok d)⟩ : Write) = ⟨dst', value.map _⟩
    cases value with
    | none => simp
    | some d' => simp

theorem outcome_eq_ok_iff {writes : List Write} {cells : List (Nat × Option Datum)} :
    outcome writes = .ok cells ↔ writes = cells.map toWrite := by
  induction writes generalizing cells with
  | nil =>
    cases cells with
    | nil => exact iff_of_true rfl rfl
    | cons cell cells => exact iff_of_false nofun nofun
  | cons w writes ih =>
    have hcons : outcome (w :: writes) = .ok cells ↔ ∃ cell rest,
        readBack w = .ok cell ∧ outcome writes = .ok rest ∧ cells = cell :: rest := by
      rw [outcome, List.mapM_cons]
      show Except.bind (readBack w) (fun cell => Except.bind (outcome writes)
        fun rest => .ok (cell :: rest)) = _ ↔ _
      cases readBack w with
      | error e => exact iff_of_false nofun fun ⟨_, _, h, _⟩ => nomatch h
      | ok cell =>
        cases outcome writes with
        | error e => exact iff_of_false nofun fun ⟨_, _, _, h, _⟩ => nomatch h
        | ok rest =>
          constructor
          · exact fun h => ⟨cell, rest, rfl, rfl, (Except.ok.inj h).symm⟩
          · rintro ⟨_, _, h, h', rfl⟩
            rw [Except.ok.inj h, Except.ok.inj h']
            rfl
    rw [hcons]
    constructor
    · rintro ⟨cell, rest, hcell, hrest, rfl⟩
      rw [List.map_cons, ← readBack_eq_ok_iff.1 hcell, ← ih.1 hrest]
    · intro h
      cases cells with
      | nil => cases h
      | cons cell rest =>
        obtain ⟨hcell, hrest⟩ := List.cons.inj h
        exact ⟨cell, rest, readBack_eq_ok_iff.2 hcell, ih.2 hrest, rfl⟩

/-- A walk without an error is what is in the row behind it. -/
theorem exists_outcome {writes : List Write}
    (h : ¬∃ w ∈ writes, ∃ e, w.cell = some (.error e)) : ∃ cells, outcome writes = .ok cells := by
  induction writes with
  | nil => exact ⟨[], rfl⟩
  | cons w writes ih =>
    obtain ⟨cells, hcells⟩ := ih fun ⟨w', hw', he⟩ => h ⟨w', List.mem_cons_of_mem _ hw', he⟩
    have hw : ∃ cell, w = toWrite cell := by
      obtain ⟨dst, written⟩ := w
      rcases written with - | e | d
      · exact ⟨(dst, none), rfl⟩
      · exact absurd ⟨_, List.mem_cons_self, e, rfl⟩ h
      · exact ⟨(dst, some d), rfl⟩
    obtain ⟨cell, rfl⟩ := hw
    refine ⟨cell :: cells, outcome_eq_ok_iff.2 ?_⟩
    rw [List.map_cons, ← outcome_eq_ok_iff.1 hcells]

theorem not_error_of_outcome {writes : List Write} {cells : List (Nat × Option Datum)}
    (h : outcome writes = .ok cells) : ¬∃ w ∈ writes, ∃ e, w.cell = some (.error e) := by
  rintro ⟨w, hw, e, he⟩
  rw [outcome_eq_ok_iff.1 h] at hw
  obtain ⟨⟨dst, value⟩, -, rfl⟩ := List.mem_map.1 hw
  cases value with
  | none => cases he
  | some d => cases he

/-- The same outcome, unless there is none: the same writes. -/
theorem outcomes_agree_iff {writes writes' : List Write} :
    (∀ cells, outcome writes = .ok cells → outcome writes' = .ok cells) ↔
      (∃ w ∈ writes, ∃ e, w.cell = some (.error e)) ∨ writes' = writes := by
  constructor
  · intro h
    by_cases herror : ∃ w ∈ writes, ∃ e, w.cell = some (.error e)
    · exact .inl herror
    · obtain ⟨cells, hcells⟩ := exists_outcome herror
      exact .inr ((outcome_eq_ok_iff.1 (h cells hcells)).trans (outcome_eq_ok_iff.1 hcells).symm)
  · rintro (herror | rfl) cells hcells
    · exact absurd herror (not_error_of_outcome hcells)
    · exact hcells

/-! ## The condition -/

section Condition

variable {detoast : List UInt8 → List UInt8} {desc : List JitAttribute} {program : DeformProgram}
  {t : HeapTuple}

/-- What the interpreter writes for a target. -/
abbrev interpWrite (detoast : List UInt8 → List UInt8) (desc : List JitAttribute) (t : HeapTuple)
    (target : DeformTarget) : Write :=
  writeFor (decodeNumeric detoast) t (compactDesc desc) target

/-- The targets of a program that is compiled are attributes of the descriptor. -/
theorem lt_of_supported (h : pgYaapJitDeformSupported desc program = .ok ()) :
    walkedLength program ≤ desc.length := by
  unfold pgYaapJitDeformSupported at h
  unfold walkedLength
  cases hlast : program.targets.getLast? with
  | none => exact Nat.zero_le _
  | some last =>
    rw [hlast] at h
    dsimp only at h
    split at h
    · cases h
    · next hle => exact Nat.not_le.1 hle

section Target

variable {target : DeformTarget} {att : JitAttribute}

/-- Where the attribute of a target starts. -/
abbrev startAt (desc : List JitAttribute) (t : HeapTuple) (target : DeformTarget)
    (att : JitAttribute) : Nat :=
  t.startOf (compactDesc desc) att.toCompactAttribute target.attIndex

theorem interpWrite_cell (hatt : desc[target.attIndex]? = some att) :
    (interpWrite detoast desc t target).cell = if t.isnull target.attIndex then none
      else some (fetched detoast t target.decodeKind att.atttypmod
        (startAt desc t target att)) := by
  show (((compactDesc desc)[target.attIndex]?).bind _) = _
  rw [compactDesc_getElem? hatt]
  rfl

theorem jitWrite_cell (hatt : desc[target.attIndex]? = some att) (hlt : target.attIndex < t.natts) :
    (jitWrite t desc target).cell = if t.isnull target.attIndex then none
      else some (storeTargetNotnull t target.decodeKind att.atttypmod
        (startAt desc t target att)) := by
  show (if t.natts ≤ target.attIndex then none else (desc[target.attIndex]?).bind _) = _
  rw [if_neg (Nat.not_le.2 hlt), hatt]
  rfl

theorem raises_iff (hatt : desc[target.attIndex]? = some att) :
    Raises detoast desc t target ↔ t.isnull target.attIndex = false ∧
      RaisesAt detoast t target.decodeKind att.atttypmod (startAt desc t target att) := by
  rw [Raises]
  refine and_congr_right fun _ => ?_
  constructor
  · rintro ⟨att', hatt', h⟩
    obtain rfl := Option.some.inj (hatt.symm.trans hatt')
    exact h
  · exact fun h => ⟨att, hatt, h⟩

theorem write_eq_iff {w w' : Write} (hdst : w.dstCol = w'.dstCol) : w = w' ↔ w.cell = w'.cell := by
  cases w
  cases w'
  dsimp only at hdst
  rw [hdst, Write.mk.injEq, and_iff_right rfl]

/-- An error of the interpreter. -/
theorem error_iff (hatt : desc[target.attIndex]? = some att) :
    (∃ e, (interpWrite detoast desc t target).cell = some (.error e)) ↔
      Raises detoast desc t target := by
  rw [raises_iff hatt, interpWrite_cell hatt, ← raisesAt_iff]
  cases hnull : t.isnull target.attIndex with
  | true => exact iff_of_false (fun ⟨e, he⟩ => nomatch he) fun h => nomatch h.1
  | false =>
    rw [and_iff_right rfl, if_neg Bool.false_ne_true]
    exact exists_congr fun e => ⟨Option.some.inj, congrArg some⟩

theorem nullWrite_eq_iff (hatt : desc[target.attIndex]? = some att) :
    nullWrite target = interpWrite detoast desc t target ↔ t.isnull target.attIndex = true := by
  have hdst : (nullWrite target).dstCol = (interpWrite detoast desc t target).dstCol := rfl
  rw [write_eq_iff hdst, interpWrite_cell hatt]
  cases t.isnull target.attIndex with
  | true => exact iff_of_true rfl rfl
  | false => exact iff_of_false nofun nofun

/-- **One target** that raises no error. -/
theorem jitWrite_eq_iff (htuple : TupleOf detoast desc program t)
    (hmem : target ∈ program.targets) (hatt : desc[target.attIndex]? = some att)
    (hraises : ¬Raises detoast desc t target) :
    jitWrite t desc target = interpWrite detoast desc t target ↔
      TargetAgrees detoast desc t target := by
  have hdst : (jitWrite t desc target).dstCol = (interpWrite detoast desc t target).dstCol := rfl
  rw [write_eq_iff hdst, interpWrite_cell hatt, TargetAgrees]
  cases hnull : t.isnull target.attIndex with
  | true =>
    refine iff_of_true ?_ nofun
    by_cases hlt : target.attIndex < t.natts
    · rw [jitWrite_cell hatt hlt, hnull, if_pos rfl, if_pos rfl]
    · exact if_pos (Nat.not_lt.1 hlt)
  | false =>
    by_cases hlt : target.attIndex < t.natts
    · rw [raises_iff hatt, and_iff_right hnull] at hraises
      have hkind := kindAgrees_iff (fun hnumeric => htuple.numeric target hmem hnumeric att hatt hlt
        hnull _ rfl) hraises
      rw [jitWrite_cell hatt hlt, hnull, if_neg Bool.false_ne_true, if_neg Bool.false_ne_true,
        Option.some.injEq, hkind]
      constructor
      · intro h _
        refine ⟨hlt, fun att' hatt' => ?_⟩
        obtain rfl := Option.some.inj (hatt.symm.trans hatt')
        exact h
      · exact fun h => (h rfl).2 att hatt
    · refine iff_of_false ?_ fun h => hlt (h rfl).1
      have hnone : (jitWrite t desc target).cell = none := if_pos (Nat.not_lt.1 hlt)
      rw [hnone]
      exact nofun

end Target

end Condition

/-! ## Seven at two scales -/

/-- A `numeric(5, scale)` that may be NULL. -/
def numericColumn (scale : Int) : JitAttribute where
  attlen := none
  attalignby := 4
  atttypmod := 5 * 65536 + scale + 4
  missing := none
  attisdropped := false
  attnullabilityValid := false

/-- The column is decoded into the first of the row. -/
def numericProgram : DeformProgram := ⟨[⟨0, 0, .numeric⟩], List.pairwise_singleton _ _⟩

/-- A tuple with the numeric 7 behind a short header; the byte `high` has the number of decimals
in it, none for `0x80` and two for `0x81`. -/
def sevenTuple (high : UInt8) : HeapTuple where
  natts := 1
  hasNulls := false
  hoff := 24
  len := 29
  bytes := fun a => if a = 24 then 11 else if a = 26 then high else if a = 27 then 7 else 0

/-- The stored seven. -/
def seven (header : UInt16) : NumericDatum := ⟨header, 7, [7]⟩

theorem seven_wellFormed {header : UInt16} (hfinite : (seven header).isSpecial = false)
    (hweight : (seven header).weight = 0) : (seven header).WellFormed := by
  have hdigit : ∀ i, 1 ≤ i → (seven header).digit i = 0 := by
    intro i hi
    obtain ⟨j, rfl⟩ := Nat.exists_eq_add_of_le' hi
    rfl
  refine ⟨hfinite, fun i => ?_, fun i hi => ?_⟩
  · cases i with
    | zero =>
      show (0 : Int) ≤ Int16.toInt 7 ∧ Int16.toInt 7 < 10000
      exact ⟨by decide, by decide⟩
    | succ i =>
      rw [hdigit (i + 1) (by omega)]
      exact ⟨le_rfl, by norm_num⟩
  · rw [hweight] at hi
    rw [hdigit i (by omega)]
    exact dvd_zero _

section Seven

variable {scale : Int} {high : UInt8}

theorem sevenTuple_startOf : (sevenTuple high).startOf (compactDesc [numericColumn scale])
    (numericColumn scale).toCompactAttribute 0 = 0 := rfl

theorem sevenTuple_varsizeAny : (sevenTuple high).varsizeAny 0 = 5 := by
  rw [HeapTuple.varsizeAny, show (sevenTuple high).data 0 = 11 from rfl, if_neg (by decide),
    if_pos (by decide)]
  rfl

theorem sevenTuple_bytesAt : (sevenTuple high).bytesAt 0 5 = [11, 0, high, 7, 0] := rfl

theorem eq_of_numericColumn {k : Nat} {att : JitAttribute}
    (h : [numericColumn scale][k]? = some att) : k = 0 ∧ att = numericColumn scale := by
  cases k with
  | zero => exact ⟨rfl, (Option.some.inj h).symm⟩
  | succ k => cases h

theorem sevenTuple_tupleOf {n : NumericDatum}
    (hstored : numericAttribute id [11, 0, high, 7, 0] = .inline n) (hwf : n.WellFormed) :
    TupleOf id [numericColumn scale] numericProgram (sevenTuple high) where
  wellFormed :=
    { natts_le := Nat.le_refl 1
      bitmap_le := nofun
      len_eq := by
        show 24 + (0 + (sevenTuple high).varsizeAny 0) = 29
        rw [sevenTuple_varsizeAny]
      attlen_pos := fun att hmem => by
        rw [List.mem_singleton.1 hmem]
        exact nofun
      alignby_pos := fun att hmem => by
        rw [List.mem_singleton.1 hmem]
        exact Nat.succ_pos 3
      header_le := fun k att hk hatt _ _ => by
        obtain rfl : k = 0 := Nat.lt_one_iff.1 hk
        obtain rfl := Option.some.inj hatt
        rw [sevenTuple_startOf, sevenTuple_varsizeAny]
        exact show varHeader 11 ≤ 5 by decide }
  notNull := fun k att hatt hvalid _ => by
    obtain ⟨-, rfl⟩ := eq_of_numericColumn hatt
    cases hvalid
  numeric := fun target hmem _ att hatt _ _ bytes hbytes _ => by
    obtain rfl := List.mem_singleton.1 hmem
    obtain ⟨-, rfl⟩ := eq_of_numericColumn hatt
    rw [sevenTuple_startOf, sevenTuple_varsizeAny, sevenTuple_bytesAt] at hbytes
    rw [hbytes, hstored]
    exact hwf

end Seven

end JitDeform
end PgYaap
