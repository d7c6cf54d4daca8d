import PgYaap.AggregateNulls
import PgYaap.Truncation

/-! # Exactness of sums, counts and averages

The rows of a group are added to a state one by one, or gathered in a delta that is added as a
whole, and partial states are added to each other. Whatever the order, a sum or a count is the
residue of the exact one in 64 bits, so that only the last value matters for what comes out; an
average is divided in 128 bits, with its decimals cut off. -/
namespace PgYaap
namespace AggregateStates

open ColumnSlots StoredNumeric WrappingAccumulators Truncation

/-! ## The ways to a state -/

/-- A value and its null flag. -/
abbrev Input := Int64 × UInt8

/-- How a state comes about: `UpdateAggregates`, `AccumulateAggDelta` and `ApplyAggDelta`, and
`CombineAggregates`, from new rows. -/
inductive Gathering
  | newRow
  | update (g : Gathering) (input : Input)
  | flush (g : Gathering) (inputs : List Input)
  | combine (dst src : Gathering)

namespace Gathering

/-- The inputs, in the order of the states they have gone to. -/
def inputs : Gathering → List Input
  | newRow => []
  | update g input => g.inputs ++ [input]
  | flush g more => g.inputs ++ more
  | combine dst src => dst.inputs ++ src.inputs

/-- The state. -/
def state (kind : TdcAggKind) : Gathering → AggState kind
  | newRow => initState kind
  | update g input => updateState kind (g.state kind) input.1 input.2
  | flush g more => applyAggDelta kind (g.state kind)
      (more.foldl (fun delta input => accumulateAggDelta kind delta input.1 input.2) ⟨0, 0⟩)
  | combine dst src => combineState kind (dst.state kind) (src.state kind)

/-- The additions to an accumulator that every input adds an amount to. -/
def sums (amount : Input → Int64) : Gathering → SumTree
  | newRow => .leaf 0
  | update g input => .add (g.sums amount) (.leaf (amount input).toInt)
  | flush g more => .add (g.sums amount)
      (more.foldl (fun delta input => .add delta (.leaf (amount input).toInt)) (.leaf 0))
  | combine dst src => .add (dst.sums amount) (src.sums amount)

end Gathering

/-! ## What is asked for -/

/-- The aggregates that add. -/
def Adds : TdcAggKind → Prop
  | .minInt64 | .minNumeric | .maxInt64 | .maxNumeric => False
  | _ => True

/-- The exact aggregate, for an average at its scale of twelve more decimals; there is no average
of nothing. -/
def exactAggregate (kind : TdcAggKind) (inputs : List Input) : Option Int :=
  let values := (nonNullValues inputs).map Int64.toInt
  match kind with
  | .countStar => some inputs.length
  | .countNonnull | .countDistinctNonnull => some values.length
  | .avgNumeric =>
    if values = [] then none
    else some (roundHalfAwayFromZero ((values.sum * avgNumericScaleFactor : ℚ) / values.length))
  | _ => some values.sum

/-- What is gathered, if no error is raised, is the exact aggregate. -/
def GatheredExactly (kind : TdcAggKind) (g : Gathering) : Prop :=
  ∀ v, finalizeState kind (g.state kind) = .ok v → exactAggregate kind g.inputs = some v.toInt

/-- What an input adds to the value. -/
def valueAmount (kind : TdcAggKind) (input : Input) : Int64 := unitValue kind input.1 input.2

/-- What an input adds to the count of an average. -/
def countAmount (_ : Input) : Int64 := 1

/-- No addition to the accumulators goes out of range. -/
def NothingWraps (kind : TdcAggKind) (g : Gathering) : Prop :=
  (∀ p ∈ (g.sums (valueAmount kind)).additions 64, wrap 64 (p.1 + p.2) = p.1 + p.2) ∧
    (kind = .avgNumeric → ∀ p ∈ (g.sums countAmount).additions 64, wrap 64 (p.1 + p.2) = p.1 + p.2)

/-! ## When it is so -/

/-- The average of a sum: cut off at twelve decimals. -/
def quotient (sum count : Int) : ℚ := (sum * avgNumericScaleFactor : ℚ) / count

/-- The average comes out right, or an error is raised. Below `2 ^ 63` inputs: the residue of the
sum gives an average out of range, or the sum is in range and the decimals that are cut off are
less than a half. From there on, the residue of the count takes the place of the count. -/
def AverageFits (sum : Int) (count : Nat) : Prop :=
  let residue := quotient (wrap 64 sum) (wrap 64 count)
  count ≠ 0 ∧
    if (count : Int) < 2 ^ 63 then
      ¬FitsInt64 (truncate (quotient (wrap 64 sum) count)) ∨
        (FitsInt64 sum ∧ |quotient sum count - truncate (quotient sum count)| < 1 / 2)
    else if wrap 64 count = 0 then |quotient sum count| < 1 / 2
    else ¬FitsInt64 (truncate residue) ∨ truncate residue = roundHalfAwayFromZero (quotient sum count)

/-- The sum of what the inputs add. -/
def exactSum (amount : Input → Int64) (inputs : List Input) : Int :=
  (inputs.map fun input => (amount input).toInt).sum

/-- The condition on the inputs. -/
def ResultFits (kind : TdcAggKind) (inputs : List Input) : Prop :=
  if kind = .avgNumeric then AverageFits (exactSum (valueAmount kind) inputs) inputs.length
  else FitsInt64 (exactSum (valueAmount kind) inputs)

/-- The condition on what is added on the way. -/
def PartialsFit (kind : TdcAggKind) (g : Gathering) : Prop :=
  (∀ x ∈ (g.sums (valueAmount kind)).partials, FitsInt64 x) ∧
    (kind = .avgNumeric → ∀ x ∈ (g.sums countAmount).partials, FitsInt64 x)

/-! ## Accumulators -/

section Accumulators

variable {kind : TdcAggKind} {amount : Input → Int64}

theorem wrap_toInt (x : Int64) : wrap 64 x.toInt = x.toInt :=
  (wrap_eq_iff (by norm_num)).2 ⟨x.le_toInt, x.toInt_lt⟩

theorem toInt_add_eq_wrap (x y : Int64) : (x + y).toInt = wrap 64 (x.toInt + y.toInt) :=
  Int64.toInt_add x y

/-- Additions of amounts one after the other. -/
theorem foldl_add_spec (more : List Input) (t : SumTree) (ht : t.LeavesFit 64) :
    let s := more.foldl (fun delta input => .add delta (.leaf (amount input).toInt)) t
    s.LeavesFit 64 ∧ s.exact = t.exact + exactSum amount more := by
  induction more generalizing t with
  | nil => exact ⟨ht, (Int.add_zero _).symm⟩
  | cons input more ih =>
    obtain ⟨hfit, hexact⟩ := ih (.add t (.leaf (amount input).toInt)) ⟨ht, wrap_toInt _⟩
    refine ⟨hfit, ?_⟩
    rw [List.foldl_cons, hexact, exactSum, exactSum, List.map_cons, List.sum_cons, ← add_assoc]
    rfl

theorem leavesFit_sums (g : Gathering) : (g.sums amount).LeavesFit 64 := by
  induction g with
  | newRow => exact (by decide : wrap 64 0 = 0)
  | update g input ih => exact ⟨ih, wrap_toInt _⟩
  | flush g more ih => exact ⟨ih, (foldl_add_spec more (.leaf 0) (by decide : wrap 64 0 = 0)).1⟩
  | combine dst src ihd ihs => exact ⟨ihd, ihs⟩

theorem exactSum_append (xs ys : List Input) :
    exactSum amount (xs ++ ys) = exactSum amount xs + exactSum amount ys := by
  rw [exactSum, List.map_append, List.sum_append]
  rfl

theorem exact_sums (g : Gathering) : (g.sums amount).exact = exactSum amount g.inputs := by
  induction g with
  | newRow => rfl
  | update g input ih =>
    rw [Gathering.sums, SumTree.exact, ih, Gathering.inputs, exactSum_append]
    simp [exactSum, SumTree.exact]
  | flush g more ih =>
    rw [Gathering.sums, SumTree.exact, ih, Gathering.inputs, exactSum_append,
      (foldl_add_spec more (.leaf 0) (by decide : wrap 64 0 = 0)).2]
    simp [SumTree.exact]
  | combine dst src ihd ihs =>
    rw [Gathering.sums, SumTree.exact, ihd, ihs, Gathering.inputs, exactSum_append]

/-- A part of the states that every operation adds to holds what the additions come to. -/
theorem toInt_eq_computed {read : AggState kind → Int64} {readDelta : DeltaValue → Int64}
    (hinit : read (initState kind) = 0) (hzero : readDelta ⟨0, 0⟩ = 0)
    (hupdate : ∀ s (input : Input),
      read (updateState kind s input.1 input.2) = read s + amount input)
    (haccumulate : ∀ delta (input : Input),
      readDelta (accumulateAggDelta kind delta input.1 input.2) = readDelta delta + amount input)
    (happly : ∀ s delta, read (applyAggDelta kind s delta) = read s + readDelta delta)
    (hcombine : ∀ dst src, read (combineState kind dst src) = read dst + read src) (g : Gathering) :
    (read (g.state kind)).toInt = (g.sums amount).computed 64 := by
  have hdelta : ∀ (more : List Input) (delta : DeltaValue) (t : SumTree),
      (readDelta delta).toInt = t.computed 64 →
      (readDelta (more.foldl (fun delta input => accumulateAggDelta kind delta input.1 input.2)
        delta)).toInt = (more.foldl (fun delta input =>
          .add delta (.leaf (amount input).toInt)) t).computed 64 := by
    intro more
    induction more with
    | nil => exact fun delta t h => h
    | cons input more ih =>
      intro delta t h
      refine ih _ _ ?_
      rw [haccumulate, toInt_add_eq_wrap, h]
      rfl
  induction g with
  | newRow =>
    rw [Gathering.state, hinit]
    rfl
  | update g input ih =>
    rw [Gathering.state, hupdate, toInt_add_eq_wrap, ih]
    rfl
  | flush g more ih =>
    rw [Gathering.state, happly, toInt_add_eq_wrap, ih,
      hdelta more ⟨0, 0⟩ (.leaf 0) (by rw [hzero]; rfl)]
    rfl
  | combine dst src ihd ihs =>
    rw [Gathering.state, hcombine, toInt_add_eq_wrap, ihd, ihs]
    rfl

theorem mergeValue_of_adds (hkind : Adds kind) (a b : Int64) : mergeValue kind a b = a + b := by
  cases kind <;> first | rfl | exact absurd hkind id

/-- **The value of a state** is what the additions come to. -/
theorem value_eq_computed (hkind : Adds kind) (g : Gathering) :
    (g.state kind).value.toInt = (g.sums (valueAmount kind)).computed 64 := by
  refine @toInt_eq_computed kind (valueAmount kind) AggState.value DeltaValue.value ?_ rfl ?_ ?_ ?_
    ?_ g
  · cases kind <;> first | rfl | exact absurd hkind id
  · intro s input
    rw [updateState_eq]
    exact mergeValue_of_adds hkind _ _
  · intro delta input
    cases kind with
    | minInt64 | minNumeric | maxInt64 | maxNumeric => exact absurd hkind id
    | sumInt64 | sumNumeric | countStar | avgNumeric => rfl
    | countNonnull | countDistinctNonnull =>
      show (if _ then _ else _ : DeltaValue).value = delta.value + if _ then _ else _
      split_ifs
      · rfl
      · exact (Int64.add_zero _).symm
  · intro s delta
    cases kind <;> first | rfl | exact absurd hkind id
  · intro dst src
    rw [combineState_eq]
    exact mergeValue_of_adds hkind _ _

/-- The count of an average. -/
theorem count_eq_computed (g : Gathering) :
    (g.state .avgNumeric).count.toInt = (g.sums countAmount).computed 64 :=
  @toInt_eq_computed .avgNumeric countAmount AggState.count DeltaValue.count rfl rfl
    (fun _ _ => rfl) (fun _ _ => rfl) (fun _ _ => rfl) (fun _ _ => rfl) g

/-- **The value is the residue of the exact sum.** -/
theorem value_eq_wrap (hkind : Adds kind) (g : Gathering) :
    (g.state kind).value.toInt = wrap 64 (exactSum (valueAmount kind) g.inputs) := by
  rw [value_eq_computed hkind, SumTree.computed_eq (leavesFit_sums g), exact_sums]

theorem exactSum_countAmount (inputs : List Input) :
    exactSum countAmount inputs = inputs.length := by
  induction inputs with
  | nil => rfl
  | cons input inputs ih =>
    rw [exactSum, List.map_cons, List.sum_cons, ← exactSum, ih, List.length_cons]
    push_cast
    exact Int.add_comm _ _

theorem count_eq_wrap (g : Gathering) :
    (g.state .avgNumeric).count.toInt = wrap 64 g.inputs.length := by
  rw [count_eq_computed, SumTree.computed_eq (leavesFit_sums g), exact_sums, exactSum_countAmount]

theorem nothingWraps_iff (g : Gathering) : NothingWraps kind g ↔ PartialsFit kind g := by
  rw [NothingWraps, PartialsFit, SumTree.additions_exact_iff (leavesFit_sums g),
    SumTree.additions_exact_iff (leavesFit_sums g)]
  simp only [fitsInt64_iff]

end Accumulators

/-! ## Results -/

section Results

variable {kind : TdcAggKind}

theorem nonNullValues_eq {inputs : List Input} (h : ∀ input ∈ inputs, input.2 = 0) :
    nonNullValues inputs = inputs.map Prod.fst := by
  rw [nonNullValues, List.filter_eq_self.2 fun input hinput => decide_eq_true (h input hinput)]

theorem exactSum_valueAmount_of_values {inputs : List Input} (h : valueAmount kind = Prod.fst)
    (hvalues : ∀ input ∈ inputs, input.2 = 0) :
    ((nonNullValues inputs).map Int64.toInt).sum = exactSum (valueAmount kind) inputs := by
  rw [nonNullValues_eq hvalues, exactSum, List.map_map, h]
  rfl

/-- The exact sum or count is what the inputs add. -/
theorem exactAggregate_eq (hkind : Adds kind) (havg : kind ≠ .avgNumeric) {inputs : List Input}
    (hvalues : ¬Counts kind → ∀ input ∈ inputs, input.2 = 0) :
    exactAggregate kind inputs = some (exactSum (valueAmount kind) inputs) := by
  have hcount : (((nonNullValues inputs).map Int64.toInt).length : Int) =
      exactSum (valueAmount .countNonnull) inputs := by
    clear hvalues
    induction inputs with
    | nil => rfl
    | cons input inputs ih =>
      rw [exactSum, List.map_cons, List.sum_cons, ← exactSum, ← ih, nonNullValues,
        List.filter_cons, valueAmount, unitValue]
      by_cases hnull : input.2 = 0
      · rw [if_pos (decide_eq_true hnull), if_pos hnull, List.map_cons, List.map_cons,
          List.length_cons]
        push_cast
        exact Int.add_comm _ _
      · rw [if_neg (by simpa using hnull), if_neg hnull]
        exact (Int.zero_add _).symm
  cases kind with
  | minInt64 | minNumeric | maxInt64 | maxNumeric => exact absurd hkind id
  | avgNumeric => exact absurd rfl havg
  | sumInt64 | sumNumeric => exact congrArg some (exactSum_valueAmount_of_values rfl (hvalues id))
  | countStar => exact congrArg some (exactSum_countAmount inputs).symm
  | countNonnull | countDistinctNonnull => exact congrArg some hcount

theorem exactAggregate_avg {inputs : List Input} (hvalues : ∀ input ∈ inputs, input.2 = 0) :
    exactAggregate .avgNumeric inputs = if inputs = [] then none else
      some (roundHalfAwayFromZero (quotient (exactSum (valueAmount .avgNumeric) inputs)
        inputs.length)) := by
  have hsum := @exactSum_valueAmount_of_values .avgNumeric inputs rfl hvalues
  rw [exactAggregate, hsum, nonNullValues_eq hvalues, List.length_map, List.length_map]
  cases inputs with
  | nil => rfl
  | cons input inputs =>
    rw [if_neg (List.cons_ne_nil _ _), List.map_cons, List.map_cons, if_neg (List.cons_ne_nil _ _)]
    rfl

/-- Sums and counts. -/
theorem gatheredExactly_iff_fits (hkind : Adds kind) (havg : kind ≠ .avgNumeric) {g : Gathering}
    (hvalues : ¬Counts kind → ∀ input ∈ g.inputs, input.2 = 0) :
    GatheredExactly kind g ↔ FitsInt64 (exactSum (valueAmount kind) g.inputs) := by
  have hfinal : finalizeState kind (g.state kind) = .ok (g.state kind).value := if_neg havg
  rw [GatheredExactly, hfinal, exactAggregate_eq hkind havg hvalues, fitsInt64_iff,
    ← value_eq_wrap hkind]
  constructor
  · intro h
    exact (Option.some.inj (h _ rfl)).symm
  · intro h v hv
    rw [← Except.ok.inj hv, h]

/-- `Gather` on the state of an average. -/
theorem finalizeState_avg (s : AggState .avgNumeric) :
    finalizeState .avgNumeric s =
      if s.count.toInt = 0 then .ok 0
      else if FitsInt64 (truncate (quotient s.value.toInt s.count.toInt)) then
        .ok (Int64.ofInt (truncate (quotient s.value.toInt s.count.toInt)))
      else .error
        "pg_yaap: finalized AVG numeric exceeds int64 range agg=%u sum=%lld count=%lld scale=%d" := by
  have hzero : s.count = 0 ↔ s.count.toInt = 0 := by
    rw [← Int64.toInt_inj]
    rfl
  have hdiv : (s.value.toInt * avgNumericScaleFactor).tdiv s.count.toInt =
      truncate (quotient s.value.toInt s.count.toInt) := by
    rw [quotient, ← truncate_div]
    push_cast
    rfl
  rw [finalizeState, if_pos rfl, hdiv]
  by_cases hcount : s.count.toInt = 0
  · rw [if_pos hcount, if_pos (hzero.2 hcount)]
  · rw [if_neg hcount, if_neg fun h => hcount (hzero.1 h)]
    generalize truncate (quotient s.value.toInt s.count.toInt) = widened
    have hrange : Int64.minValue.toInt ≤ widened ∧ widened ≤ Int64.maxValue.toInt ↔
        FitsInt64 widened := by
      rw [FitsInt64]
      constructor
      · rintro ⟨hlo, hhi⟩
        have hlo' : (-2 ^ 63 : Int) ≤ widened := hlo
        have hhi' : widened ≤ (2 ^ 63 - 1 : Int) := hhi
        exact ⟨by exact_mod_cast hlo', by exact_mod_cast hhi'⟩
      · rintro ⟨hlo, hhi⟩
        have hlo' : (-2 ^ 63 : Int) ≤ widened := by exact_mod_cast hlo
        have hhi' : widened ≤ (2 ^ 63 - 1 : Int) := by exact_mod_cast hhi
        exact ⟨hlo', hhi'⟩
    by_cases hfits : FitsInt64 widened
    · rw [if_pos hfits, if_pos (hrange.2 hfits)]
    · rw [if_neg hfits, if_neg fun h => hfits (hrange.1 h)]

/-- Averages of fewer than `2 ^ 63` inputs that come out right have a sum in range. -/
theorem fits_of_truncate_eq {sum : Int} {count : Nat} (hpos : count ≠ 0)
    (hcount : (count : Int) < 2 ^ 63)
    (h : truncate (quotient (wrap 64 sum) count) = roundHalfAwayFromZero (quotient sum count)) :
    FitsInt64 sum := by
  have hcut := abs_truncate_sub_lt (quotient (wrap 64 sum) count)
  have hround := abs_roundHalfAwayFromZero_sub_le (quotient sum count)
  have hn : (0 : ℚ) < count := by exact_mod_cast Nat.pos_of_ne_zero hpos
  -- the two quotients are less than two apart, so that the sums are less than `2 ^ 64` apart
  have hclose : |quotient (wrap 64 sum) count - quotient sum count| < 2 := by
    rw [h] at hcut
    rw [abs_lt] at hcut ⊢
    rw [abs_le] at hround
    constructor <;> linarith
  have hdiff : quotient (wrap 64 sum) count - quotient sum count =
      ((wrap 64 sum - sum : Int) : ℚ) * 1000000000000 / count := by
    rw [quotient, quotient, ← sub_div, ← sub_mul]
    push_cast
    rfl
  rw [hdiff, abs_div, abs_mul, abs_of_pos hn, abs_of_pos (by norm_num : (0 : ℚ) < 1000000000000),
    div_lt_iff₀ hn] at hclose
  have hcountq : (count : ℚ) < 2 ^ 63 := by exact_mod_cast hcount
  have hsmall : |((wrap 64 sum - sum : Int) : ℚ)| < ((2 ^ 64 : Int) : ℚ) := by
    push_cast at hclose ⊢
    linarith
  have hsmall' : |wrap 64 sum - sum| < 2 ^ 64 := by exact_mod_cast hsmall
  have hdvd : (2 : Int) ^ 64 ∣ wrap 64 sum - sum := (wrap_modEq 64 sum).symm.dvd
  rw [fitsInt64_iff]
  have := Int.eq_zero_of_abs_lt_dvd hdvd hsmall'
  omega

theorem forall_ok_iff {c : Int64} {r : Int} :
    (∀ v, (Except.ok c : Except String Int64) = .ok v → some r = some v.toInt) ↔ r = c.toInt := by
  constructor
  · intro h
    exact Option.some.inj (h c rfl)
  · intro h v hv
    rw [← Except.ok.inj hv, h]

/-- The quotient of two residues, if it is in range, against the average. -/
theorem forall_quotient_iff {cut r : Int} :
    (∀ v, (if FitsInt64 cut then .ok (Int64.ofInt cut) else .error
      "pg_yaap: finalized AVG numeric exceeds int64 range agg=%u sum=%lld count=%lld scale=%d" :
        Except String Int64) = .ok v → some r = some v.toInt) ↔ ¬FitsInt64 cut ∨ cut = r := by
  by_cases hfits : FitsInt64 cut
  · have htoInt : (Int64.ofInt cut).toInt = cut := Int64.toInt_ofInt.trans (fitsInt64_iff.1 hfits)
    rw [if_pos hfits, forall_ok_iff, htoInt, eq_comm]
    exact ⟨Or.inr, fun h => h.resolve_left (not_not_intro hfits)⟩
  · rw [if_neg hfits]
    exact iff_of_true (fun v hv => nomatch hv) (Or.inl hfits)

theorem gatheredExactly_iff_average {g : Gathering} (hvalues : ∀ input ∈ g.inputs, input.2 = 0) :
    GatheredExactly .avgNumeric g ↔
      AverageFits (exactSum (valueAmount .avgNumeric) g.inputs) g.inputs.length := by
  have hadds : Adds .avgNumeric := trivial
  rw [GatheredExactly, finalizeState_avg, value_eq_wrap hadds, count_eq_wrap,
    exactAggregate_avg hvalues, AverageFits]
  generalize exactSum (valueAmount .avgNumeric) g.inputs = sum
  by_cases hempty : g.inputs = []
  · rw [if_pos hempty, hempty, List.length_nil, if_pos (by decide)]
    exact iff_of_false (fun h => nomatch h 0 rfl) fun h => h.1 rfl
  · have hpos : g.inputs.length ≠ 0 := fun h => hempty (List.length_eq_zero_iff.1 h)
    rw [if_neg hempty, and_iff_right hpos]
    generalize g.inputs.length = count at hpos
    by_cases hsmall : (count : Int) < 2 ^ 63
    · have hwrap : wrap 64 (count : Int) = count := (wrap_eq_iff (by norm_num)).2 ⟨by omega, hsmall⟩
      rw [hwrap, if_neg (by omega), if_pos hsmall, forall_quotient_iff]
      refine or_congr_right ?_
      constructor
      · intro h
        have hfits := fits_of_truncate_eq hpos hsmall h
        rw [fitsInt64_iff.1 hfits] at h
        exact ⟨hfits, roundHalfAwayFromZero_eq_truncate_iff.1 h.symm⟩
      · rintro ⟨hfits, hcut⟩
        rw [fitsInt64_iff.1 hfits]
        exact (roundHalfAwayFromZero_eq_truncate_iff.2 hcut).symm
    · rw [if_neg hsmall]
      by_cases hzero : wrap 64 (count : Int) = 0
      · rw [if_pos hzero, if_pos hzero, forall_ok_iff, ← roundHalfAwayFromZero_eq_zero_iff]
        rfl
      · rw [if_neg hzero, if_neg hzero, forall_quotient_iff]

/-- **Sums, counts and averages are exact where they fit**: whichever way the inputs are split
and combined, what is gathered is the exact aggregate, or an error is raised, if and only if the
sum fits; and no accumulator goes out of range on the way if and only if no partial sum does. -/
theorem aggregate_exact (hkind : Adds kind) (g : Gathering)
    (hvalues : ¬Counts kind → ∀ input ∈ g.inputs, input.2 = 0) :
    (GatheredExactly kind g ↔ ResultFits kind g.inputs) ∧
      (NothingWraps kind g ↔ PartialsFit kind g) := by
  refine ⟨?_, nothingWraps_iff g⟩
  rw [ResultFits]
  by_cases havg : kind = .avgNumeric
  · subst havg
    rw [if_pos rfl]
    exact gatheredExactly_iff_average (hvalues id)
  · rw [if_neg havg]
    exact gatheredExactly_iff_fits hkind havg hvalues

/-- Two partial averages: of one and three, and of eight. -/
def twoParts : Gathering :=
  .combine (.update (.update .newRow (1, 0)) (3, 0)) (.flush .newRow [(8, 0)])

theorem aggregate_exact_average : GatheredExactly .avgNumeric twoParts ∧
    NothingWraps .avgNumeric twoParts := by
  have hadds : Adds .avgNumeric := trivial
  have hexact := aggregate_exact hadds twoParts fun _ => by
    simp [twoParts, Gathering.inputs]
  refine ⟨hexact.1.2 ⟨by decide, ?_⟩, hexact.2.2 ⟨fun x hx => ?_, fun _ x hx => ?_⟩⟩
  · have hsum : exactSum (valueAmount .avgNumeric) twoParts.inputs = 12 := by decide
    have hquotient : quotient 12 (twoParts.inputs.length : Int) = (4000000000000 : Int) := by
      norm_num [quotient, avgNumericScaleFactor, twoParts, Gathering.inputs]
    rw [if_pos (by decide), hsum, hquotient]
    refine Or.inr ⟨fitsInt64_iff.2 (by decide), ?_⟩
    norm_num [truncate]
  · exact fitsInt64_iff.2 ((by decide : ∀ x ∈ (twoParts.sums (valueAmount .avgNumeric)).partials,
      wrap 64 x = x) x hx)
  · exact fitsInt64_iff.2 ((by decide : ∀ x ∈ (twoParts.sums countAmount).partials,
      wrap 64 x = x) x hx)

/-- The largest `int64` and one. -/
def tooLarge : Gathering := .update (.update .newRow (Int64.maxValue, 0)) (1, 0)

/-- The sum of the largest `int64` and one comes out as the least one. -/
theorem not_gatheredExactly : ¬∀ (kind : TdcAggKind) (g : Gathering), Adds kind →
    (∀ input ∈ g.inputs, input.2 = 0) → GatheredExactly kind g := by
  intro h
  have hadds : Adds .sumInt64 := trivial
  have hvalues : ∀ input ∈ tooLarge.inputs, input.2 = 0 := by simp [tooLarge, Gathering.inputs]
  have hiff := gatheredExactly_iff_fits hadds (by decide) fun _ => hvalues
  have hsum : exactSum (valueAmount .sumInt64) tooLarge.inputs = 2 ^ 63 := by decide
  have hfits := hiff.1 (h .sumInt64 tooLarge hadds hvalues)
  rw [hsum, fitsInt64_iff] at hfits
  exact absurd hfits (by decide)

end Results

end AggregateStates
end PgYaap
