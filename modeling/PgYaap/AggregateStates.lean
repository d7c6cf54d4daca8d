import PgYaap.AggregateLayout
import PgYaap.GroupedFold
import PgYaap.ProbedTables

/-! # The states of aggregates

A row of an aggregate has a state behind its group columns for every aggregate: a value, and
for an average a count. Every function that changes states is a switch over the kinds: for one
row of a chunk, for a delta that has gathered several rows, for the states of another row.
Whichever way rows are gathered and states are combined, a state ends as the fold over the rows
of its group. -/
namespace PgYaap
namespace AggregateStates

open ColumnSlots GroupedFold

/-! ## States -/

/-- The value of an aggregate, and the count that only an average has. -/
@[ext]
structure AggState (kind : TdcAggKind) where
  value : Int64
  count : Int64
  count_eq : kind ≠ .avgNumeric → count = 0
  deriving DecidableEq

/-- The value that a new row gets; the count stays the zero of the allocation. -/
def initValue : TdcAggKind → Int64
  | .minInt64 | .minNumeric => Int64.maxValue
  | .maxInt64 | .maxNumeric => Int64.minValue
  | .countStar | .countNonnull | .countDistinctNonnull | .sumInt64 | .sumNumeric | .avgNumeric => 0

/-- What the second half of `ScatterGroupOnly` leaves in a new row. -/
def initState (kind : TdcAggKind) : AggState kind := ⟨initValue kind, 0, fun _ => rfl⟩

/-- `UpdateAggregates`, for one aggregate: with the value and the null flag of its input. -/
def updateState : (kind : TdcAggKind) → AggState kind → Int64 → UInt8 → AggState kind
  | .sumInt64, s, value, _ | .sumNumeric, s, value, _ => { s with value := s.value + value }
  | .countStar, s, _, _ => { s with value := s.value + 1 }
  | .countNonnull, s, _, null | .countDistinctNonnull, s, _, null =>
    { s with value := if null = 0 then s.value + 1 else s.value }
  | .avgNumeric, s, value, _ => ⟨s.value + value, s.count + 1, fun h => absurd rfl h⟩
  | .minInt64, s, value, _ | .minNumeric, s, value, _ =>
    { s with value := if s.value = Int64.maxValue ∨ value < s.value then value else s.value }
  | .maxInt64, s, value, _ | .maxNumeric, s, value, _ =>
    { s with value := if s.value = Int64.minValue ∨ s.value < value then value else s.value }

/-- The entries of `AggDelta` for one aggregate. The count of a least or greatest value only
says whether there is one. -/
structure DeltaValue where
  value : Int64
  count : Int64

/-- `AccumulateAggDelta`, for one aggregate. -/
def accumulateAggDelta (kind : TdcAggKind) (delta : DeltaValue) (value : Int64) (null : UInt8) :
    DeltaValue :=
  match kind with
  | .sumInt64 | .sumNumeric => { delta with value := delta.value + value }
  | .countStar => { delta with value := delta.value + 1 }
  | .countNonnull | .countDistinctNonnull =>
    if null = 0 then { delta with value := delta.value + 1 } else delta
  | .avgNumeric => ⟨delta.value + value, delta.count + 1⟩
  | .minInt64 | .minNumeric =>
    ⟨if delta.count = 0 ∨ value < delta.value then value else delta.value, 1⟩
  | .maxInt64 | .maxNumeric =>
    ⟨if delta.count = 0 ∨ delta.value < value then value else delta.value, 1⟩

/-- `ApplyAggDelta`, for one aggregate. -/
def applyAggDelta : (kind : TdcAggKind) → AggState kind → DeltaValue → AggState kind
  | .sumInt64, s, delta | .sumNumeric, s, delta | .countStar, s, delta | .countNonnull, s, delta
  | .countDistinctNonnull, s, delta => { s with value := s.value + delta.value }
  | .avgNumeric, s, delta => ⟨s.value + delta.value, s.count + delta.count, fun h => absurd rfl h⟩
  | .minInt64, s, delta | .minNumeric, s, delta =>
    { s with value :=
        if delta.count ≠ 0 ∧ (s.value = Int64.maxValue ∨ delta.value < s.value) then delta.value
        else s.value }
  | .maxInt64, s, delta | .maxNumeric, s, delta =>
    { s with value :=
        if delta.count ≠ 0 ∧ (s.value = Int64.minValue ∨ s.value < delta.value) then delta.value
        else s.value }

/-- `CombineAggregates`, for one aggregate. -/
def combineState : (kind : TdcAggKind) → AggState kind → AggState kind → AggState kind
  | .sumInt64, dst, src | .sumNumeric, dst, src | .countStar, dst, src | .countNonnull, dst, src
  | .countDistinctNonnull, dst, src => { dst with value := dst.value + src.value }
  | .avgNumeric, dst, src => ⟨dst.value + src.value, dst.count + src.count, fun h => absurd rfl h⟩
  | .minInt64, dst, src | .minNumeric, dst, src =>
    { dst with value :=
        if dst.value = Int64.maxValue ∨ src.value < dst.value then src.value else dst.value }
  | .maxInt64, dst, src | .maxNumeric, dst, src =>
    { dst with value :=
        if dst.value = Int64.minValue ∨ dst.value < src.value then src.value else dst.value }

/-! ## What states are folds of -/

/-- The sum, the least or the greatest of two values. -/
def mergeValue : TdcAggKind → Int64 → Int64 → Int64
  | .minInt64 | .minNumeric => fun a b => if a ≤ b then a else b
  | .maxInt64 | .maxNumeric => fun a b => if a ≤ b then b else a
  | .countStar | .countNonnull | .countDistinctNonnull | .sumInt64 | .sumNumeric | .avgNumeric =>
    (· + ·)

/-- What one row contributes to the value. -/
def unitValue (kind : TdcAggKind) (value : Int64) (null : UInt8) : Int64 :=
  match kind with
  | .sumInt64 | .sumNumeric | .avgNumeric | .minInt64 | .minNumeric | .maxInt64 | .maxNumeric =>
    value
  | .countStar => 1
  | .countNonnull | .countDistinctNonnull => if null = 0 then 1 else 0

section Merge

variable {kind : TdcAggKind}

/-- Two states as one. -/
def mergeState (s s' : AggState kind) : AggState kind where
  value := mergeValue kind s.value s'.value
  count := s.count + s'.count
  count_eq := by
    intro h
    rw [s.count_eq h, s'.count_eq h, Int64.add_zero]

/-- What one row contributes. -/
def unitState (kind : TdcAggKind) (value : Int64) (null : UInt8) : AggState kind where
  value := unitValue kind value null
  count := if kind = .avgNumeric then 1 else 0
  count_eq := fun h => if_neg h

theorem mergeValue_assoc (kind : TdcAggKind) (a b c : Int64) :
    mergeValue kind (mergeValue kind a b) c = mergeValue kind a (mergeValue kind b c) := by
  cases kind with
  | minInt64 | minNumeric | maxInt64 | maxNumeric =>
    dsimp only [mergeValue]
    grind
  | countStar | countNonnull | countDistinctNonnull | sumInt64 | sumNumeric | avgNumeric =>
    exact Int64.add_assoc _ _ _

theorem mergeValue_comm (kind : TdcAggKind) (a b : Int64) :
    mergeValue kind a b = mergeValue kind b a := by
  cases kind with
  | minInt64 | minNumeric | maxInt64 | maxNumeric =>
    dsimp only [mergeValue]
    grind
  | countStar | countNonnull | countDistinctNonnull | sumInt64 | sumNumeric | avgNumeric =>
    exact Int64.add_comm _ _

theorem initValue_mergeValue (kind : TdcAggKind) (a : Int64) :
    mergeValue kind (initValue kind) a = a := by
  have hmax := Int64.le_maxValue a
  have hmin := Int64.minValue_le a
  cases kind with
  | minInt64 | minNumeric =>
    change (if Int64.maxValue ≤ a then Int64.maxValue else a) = a
    grind
  | maxInt64 | maxNumeric => exact if_pos hmin
  | countStar | countNonnull | countDistinctNonnull | sumInt64 | sumNumeric | avgNumeric =>
    exact Int64.zero_add _

theorem initState_mergeState (a : AggState kind) : mergeState (initState kind) a = a :=
  AggState.ext (initValue_mergeValue kind a.value) (Int64.zero_add _)

/-- The count of a merged state, for the kinds that have none. -/
theorem count_add (h : kind ≠ .avgNumeric) (s s' : AggState kind) :
    s.count = s.count + s'.count := by
  rw [s'.count_eq h, Int64.add_zero]

/-- **A row is added to a state.** -/
theorem updateState_eq (s : AggState kind) (value : Int64) (null : UInt8) :
    updateState kind s value null = mergeState s (unitState kind value null) := by
  have hmax := Int64.le_maxValue value
  have hmin := Int64.minValue_le value
  have hcount := fun h : kind ≠ .avgNumeric => count_add h s (unitState kind value null)
  cases kind with
  | minInt64 | minNumeric | maxInt64 | maxNumeric =>
    refine AggState.ext ?_ (hcount (by decide))
    dsimp only [updateState, mergeState, mergeValue, unitState, unitValue]
    grind
  | sumInt64 | sumNumeric | countStar => exact AggState.ext rfl (hcount (by decide))
  | countNonnull | countDistinctNonnull =>
    refine AggState.ext ?_ (hcount (by decide))
    dsimp only [updateState, mergeState, mergeValue, unitState, unitValue]
    by_cases hnull : null = 0
    · rw [if_pos hnull, if_pos hnull]
    · rw [if_neg hnull, if_neg hnull, Int64.add_zero]
  | avgNumeric => rfl

/-- **Two states combine to one.** -/
theorem combineState_eq (dst src : AggState kind) :
    combineState kind dst src = mergeState dst src := by
  have hmax := Int64.le_maxValue src.value
  have hmin := Int64.minValue_le src.value
  have hcount := fun h : kind ≠ .avgNumeric => count_add h dst src
  cases kind with
  | minInt64 | minNumeric | maxInt64 | maxNumeric =>
    refine AggState.ext ?_ (hcount (by decide))
    dsimp only [combineState, mergeState, mergeValue]
    grind
  | countStar | countNonnull | countDistinctNonnull | sumInt64 | sumNumeric =>
    exact AggState.ext rfl (hcount (by decide))
  | avgNumeric => rfl

/-- **One more row in a delta is one more row in the state.** -/
theorem applyAggDelta_accumulateAggDelta (s : AggState kind) (delta : DeltaValue) (value : Int64)
    (null : UInt8) :
    applyAggDelta kind s (accumulateAggDelta kind delta value null) =
      mergeState (applyAggDelta kind s delta) (unitState kind value null) := by
  have hmax := Int64.le_maxValue value
  have hmin := Int64.minValue_le value
  have hmax' := Int64.le_maxValue delta.value
  have hmin' := Int64.minValue_le delta.value
  have hcount := fun h : kind ≠ .avgNumeric => count_add h s (unitState kind value null)
  cases kind with
  | minInt64 | minNumeric | maxInt64 | maxNumeric =>
    refine AggState.ext ?_ (hcount (by decide))
    dsimp only [mergeState, mergeValue, unitState, unitValue, applyAggDelta, accumulateAggDelta]
    grind
  | sumInt64 | sumNumeric | countStar =>
    exact AggState.ext (Int64.add_assoc _ _ _).symm (hcount (by decide))
  | countNonnull | countDistinctNonnull =>
    refine AggState.ext ?_ (hcount (by decide))
    dsimp only [mergeState, mergeValue, unitState, unitValue, applyAggDelta, accumulateAggDelta]
    by_cases hnull : null = 0
    · rw [if_pos hnull, if_pos hnull]
      exact (Int64.add_assoc _ _ _).symm
    · rw [if_neg hnull, if_neg hnull, Int64.add_zero]
  | avgNumeric => exact AggState.ext (Int64.add_assoc _ _ _).symm (Int64.add_assoc _ _ _).symm

theorem applyAggDelta_zero (s : AggState kind) : applyAggDelta kind s ⟨0, 0⟩ = s := by
  cases kind with
  | minInt64 | minNumeric | maxInt64 | maxNumeric =>
    refine AggState.ext ?_ rfl
    dsimp only [applyAggDelta]
    exact if_neg fun h => h.1 rfl
  | countStar | countNonnull | countDistinctNonnull | sumInt64 | sumNumeric =>
    exact AggState.ext (Int64.add_zero _) rfl
  | avgNumeric => exact AggState.ext (Int64.add_zero _) (Int64.add_zero _)

end Merge

/-! ## Rows of states -/

/-- The states of a row. -/
abbrev States (aggs : List TdcAggregateDesc) : Type :=
  (a : Fin aggs.length) → AggState (aggs.get a).kind

/-- A row of a chunk. -/
abbrev ChunkRow := DataChunk × Nat

section Rows

variable {aggs : List TdcAggregateDesc}

/-- The states of a new row. -/
def initStates : States aggs := fun _ => initState _

/-- `UpdateAggregates`. -/
def updateAggregates (states : States aggs) (row : ChunkRow) : States aggs := fun a =>
  updateState (aggs.get a).kind (states a) (row.1.getInt64 (aggs.get a).srcColIdx row.2)
    (row.1.nulls (aggs.get a).srcColIdx row.2)

/-- `CombineAggregates`. -/
def combineAggregates (dst src : States aggs) : States aggs := fun a =>
  combineState (aggs.get a).kind (dst a) (src a)

variable (aggs) in
/-- The aggregation of a list of aggregates: rows of chunks into the states of a row. -/
def aggregation : Aggregation ChunkRow (States aggs) where
  empty := initStates
  unit row a := unitState (aggs.get a).kind (row.1.getInt64 (aggs.get a).srcColIdx row.2)
    (row.1.nulls (aggs.get a).srcColIdx row.2)
  combine s s' a := mergeState (s a) (s' a)
  combine_assoc _ _ _ := funext fun _ => AggState.ext (mergeValue_assoc _ _ _ _)
    (Int64.add_assoc _ _ _)
  combine_comm _ _ := funext fun _ => AggState.ext (mergeValue_comm _ _ _) (Int64.add_comm _ _)
  empty_combine _ := funext fun _ => initState_mergeState _

theorem updateAggregates_eq (states : States aggs) (row : ChunkRow) :
    updateAggregates states row = (aggregation aggs).combine states ((aggregation aggs).unit row) :=
  funext fun _ => updateState_eq _ _ _

theorem combineAggregates_eq (dst src : States aggs) :
    combineAggregates dst src = (aggregation aggs).combine dst src :=
  funext fun _ => combineState_eq _ _

/-- **Rows that are added one by one** are combined with the state as a whole. -/
theorem foldl_updateAggregates (states : States aggs) (rows : List ChunkRow) :
    rows.foldl updateAggregates states =
      (aggregation aggs).combine states (total (aggregation aggs) rows) := by
  induction rows generalizing states with
  | nil => exact ((aggregation aggs).combine_empty states).symm
  | cons row rows ih =>
    rw [List.foldl_cons, ih, updateAggregates_eq, (aggregation aggs).combine_assoc, total]

theorem foldl_updateAggregates_init (rows : List ChunkRow) :
    rows.foldl updateAggregates initStates = total (aggregation aggs) rows := by
  rw [foldl_updateAggregates]
  exact (aggregation aggs).empty_combine _

/-- Partial states of pieces, combined one after the other, are the states of all rows. -/
theorem foldl_combineAggregates (states : States aggs) (pieces : List (List ChunkRow)) :
    (pieces.map fun piece => piece.foldl updateAggregates initStates).foldl combineAggregates
        states =
      (aggregation aggs).combine states (total (aggregation aggs) pieces.flatten) := by
  induction pieces generalizing states with
  | nil => exact ((aggregation aggs).combine_empty states).symm
  | cons piece pieces ih =>
    rw [List.map_cons, List.foldl_cons, ih, combineAggregates_eq, foldl_updateAggregates_init,
      List.flatten_cons, total_append, (aggregation aggs).combine_assoc]

variable (aggs) in
/-- **Partial aggregates combine to the aggregate.** The states of two sequences of rows combine
to the states of the concatenation; states form a commutative monoid with the states of a new
row as its unit; however rows are split, and in whatever order, the partial states combine to
the states of all rows. -/
theorem partial_aggregates_combine :
    (∀ rows more : List ChunkRow,
      @combineAggregates aggs (rows.foldl updateAggregates initStates)
        (more.foldl updateAggregates initStates) =
          (rows ++ more).foldl updateAggregates initStates) ∧
    (∀ a b c : States aggs, combineAggregates (combineAggregates a b) c =
      combineAggregates a (combineAggregates b c)) ∧
    (∀ a b : States aggs, combineAggregates a b = combineAggregates b a) ∧
    (∀ a : States aggs, combineAggregates initStates a = a ∧ combineAggregates a initStates = a) ∧
    ∀ (pieces : List (List ChunkRow)) (rows : List ChunkRow), pieces.flatten.Perm rows →
      (pieces.map fun piece => piece.foldl updateAggregates initStates).foldl combineAggregates
        initStates = (rows.foldl updateAggregates initStates : States aggs) := by
  refine ⟨?_, ?_, ?_, ?_, ?_⟩
  · intro rows more
    rw [combineAggregates_eq, foldl_updateAggregates_init, foldl_updateAggregates_init,
      foldl_updateAggregates_init, total_append]
  · intro a b c
    rw [combineAggregates_eq, combineAggregates_eq, combineAggregates_eq, combineAggregates_eq]
    exact (aggregation aggs).combine_assoc a b c
  · intro a b
    rw [combineAggregates_eq, combineAggregates_eq]
    exact (aggregation aggs).combine_comm a b
  · intro a
    rw [combineAggregates_eq, combineAggregates_eq]
    exact ⟨(aggregation aggs).empty_combine a, (aggregation aggs).combine_empty a⟩
  · intro pieces rows hperm
    rw [foldl_combineAggregates, foldl_updateAggregates_init, total_perm _ hperm]
    exact (aggregation aggs).empty_combine _

end Rows
end AggregateStates
end PgYaap
