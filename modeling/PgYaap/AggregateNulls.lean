import PgYaap.AggregateDeltas
import PgYaap.HashJoinBuildMerge
import PgYaap.NullFlags

/-! # NULL inputs of aggregates

Of all aggregates only COUNT looks at the null flag of its input. The others take whatever value
lies under the flag, and no aggregate comes out as NULL. What a group comes to is compared here
with what its rows without NULL come to. -/
namespace PgYaap
namespace AggregateStates

open ColumnSlots GroupedFold NullFlags

/-! ## Output -/

/-- `kAvgNumericScaleFactor`. -/
def avgNumericScaleFactor : Int := 1000000000000

/-- What `Gather` makes of a state: an average is divided, in 128 bits. -/
def finalizeState (kind : TdcAggKind) (s : AggState kind) : Except String Int64 :=
  if kind = .avgNumeric then
    if s.count = 0 then .ok 0
    else
      let widened := (s.value.toInt * avgNumericScaleFactor).tdiv s.count.toInt
      if Int64.minValue.toInt ≤ widened ∧ widened ≤ Int64.maxValue.toInt then
        .ok (Int64.ofInt widened)
      else .error "pg_yaap: finalized AVG numeric exceeds int64 range agg=%u sum=%lld count=%lld scale=%d"
  else .ok s.value

section Output

variable {aggs : List TdcAggregateDesc}

/-- The loop of `Gather` and `GatherDenseAggregateOutput` over the aggregates. No null flag is
written. -/
def gatherAggregates (columnCount : Nat) (states : States aggs) : Except String (List CellWrite) :=
  (List.finRange aggs.length).mapM fun a => do
    let v ← finalizeState (aggs.get a).kind (states a)
    return ⟨columnCount + a, some (.int64 v), none⟩

/-- An aggregate comes out as NULL, in whatever chunk it is put. -/
def ComesOutNull (columnCount : Nat) (states : States aggs) (a : Fin aggs.length) : Prop :=
  ∀ (chunk : DataChunk) (row : Nat), ∃ writes, gatherAggregates columnCount states = .ok writes ∧
    (writes.foldl (writeCell row) (reset chunk)).nulls (columnCount + a) row ≠ 0

theorem mapM_eq_ok {α β : Type} {f : α → Except String β} {g : α → β} {l : List α}
    (h : ∀ a ∈ l, f a = .ok (g a)) : l.mapM f = .ok (l.map g) := by
  induction l with
  | nil => rfl
  | cons a l ih =>
    rw [List.mapM_cons, h a List.mem_cons_self, ih fun b hb => h b (List.mem_cons_of_mem _ hb)]
    rfl

theorem exists_of_mapM_eq_ok {α β : Type} {f : α → Except String β} {l : List α} {r : List β}
    (h : l.mapM f = .ok r) : ∀ a ∈ l, ∃ b, f a = .ok b := by
  induction l generalizing r with
  | nil => exact fun a ha => absurd ha List.not_mem_nil
  | cons a l ih =>
    rw [List.mapM_cons] at h
    obtain ⟨b, hb, h⟩ := HashJoinBuild.bind_eq_ok h
    obtain ⟨rest, hrest, -⟩ := HashJoinBuild.bind_eq_ok h
    intro a' ha'
    rcases List.mem_cons.1 ha' with rfl | hmem
    · exact ⟨b, hb⟩
    · exact ih hrest a' hmem

/-- The writes of the loop over the aggregates, by the values that are written. -/
def aggregateWrites (columnCount : Nat) (v : Fin aggs.length → Int64) : List CellWrite :=
  (List.finRange aggs.length).map fun a : Fin aggs.length =>
    ⟨columnCount + a, some (.int64 (v a)), none⟩

theorem mem_aggregateWrites {columnCount : Nat} {v : Fin aggs.length → Int64} {w : CellWrite} :
    w ∈ aggregateWrites columnCount v ↔
      ∃ a : Fin aggs.length, w = ⟨columnCount + a, some (.int64 (v a)), none⟩ := by
  constructor
  · intro hw
    obtain ⟨a, -, rfl⟩ := List.mem_map.1 hw
    exact ⟨a, rfl⟩
  · rintro ⟨a, rfl⟩
    exact List.mem_map.2 ⟨a, List.mem_finRange a, rfl⟩

theorem gatherAggregates_eq_ok {columnCount : Nat} {states : States aggs}
    {v : Fin aggs.length → Int64}
    (h : ∀ a, finalizeState (aggs.get a).kind (states a) = .ok (v a)) :
    gatherAggregates columnCount states = .ok (aggregateWrites columnCount v) := by
  refine mapM_eq_ok fun a _ => ?_
  rw [h a]
  rfl

/-- What is written when no average is out of range. -/
theorem of_gatherAggregates_eq_ok {columnCount : Nat} {states : States aggs}
    {writes : List CellWrite} (h : gatherAggregates columnCount states = .ok writes) :
    ∃ v : Fin aggs.length → Int64,
      (∀ a, finalizeState (aggs.get a).kind (states a) = .ok (v a)) ∧
      writes = aggregateWrites columnCount v := by
  have hall : ∀ a : Fin aggs.length, ∃ v, finalizeState (aggs.get a).kind (states a) = .ok v := by
    intro a
    obtain ⟨w, hw⟩ := exists_of_mapM_eq_ok h a (List.mem_finRange a)
    obtain ⟨v, hv, -⟩ := HashJoinBuild.bind_eq_ok hw
    exact ⟨v, hv⟩
  choose v hv using hall
  rw [gatherAggregates_eq_ok hv] at h
  exact ⟨v, hv, (Except.ok.inj h).symm⟩

/-- **No aggregate comes out as NULL.** -/
theorem not_comesOutNull (columnCount : Nat) (states : States aggs) (a : Fin aggs.length) :
    ¬ ComesOutNull columnCount states a := by
  intro h
  obtain ⟨writes, hok, hflag⟩ := h (int64Chunk 0 (fun _ => 0) fun _ => 0) 0
  obtain ⟨v, -, rfl⟩ := of_gatherAggregates_eq_ok hok
  have hkept : ∀ (writes : List CellWrite) (chunk : DataChunk), (∀ w ∈ writes, w.flag = none) →
      (writes.foldl (writeCell 0) chunk).nulls (columnCount + a) 0 =
        chunk.nulls (columnCount + a) 0 := by
    intro writes
    induction writes with
    | nil => exact fun _ _ => rfl
    | cons w writes ih =>
      intro chunk hnone
      rw [List.foldl_cons, ih _ fun w' hw' => hnone w' (List.mem_cons_of_mem _ hw'),
        nulls_writeCell, hnone w List.mem_cons_self]
  rw [hkept _ _ fun w hw => by
    obtain ⟨b, rfl⟩ := mem_aggregateWrites.1 hw
    rfl] at hflag
  exact hflag rfl

end Output

/-! ## Inputs of a group -/

/-- The input of an aggregate in a row: its value and its null flag. -/
def inputOf (agg : TdcAggregateDesc) (row : ChunkRow) : Int64 × UInt8 :=
  (row.1.getInt64 agg.srcColIdx row.2, row.1.nulls agg.srcColIdx row.2)

/-- The values of the inputs that are not NULL. -/
def nonNullValues (inputs : List (Int64 × UInt8)) : List Int64 :=
  (inputs.filter fun input => input.2 = 0).map Prod.fst

/-- What lies under the null flags. -/
def valuesUnderNull (inputs : List (Int64 × UInt8)) : List Int64 :=
  (inputs.filter fun input => ¬ input.2 = 0).map Prod.fst

/-- The sum, the number, the least or the greatest of some values. -/
def aggregateValue (kind : TdcAggKind) (values : List Int64) : Int64 :=
  match kind with
  | .sumInt64 | .sumNumeric | .avgNumeric => values.foldr (· + ·) 0
  | .countStar | .countNonnull | .countDistinctNonnull => Int64.ofNat values.length
  | .minInt64 | .minNumeric => values.foldr (fun a b => if a ≤ b then a else b) Int64.maxValue
  | .maxInt64 | .maxNumeric => values.foldr (fun a b => if a ≤ b then b else a) Int64.minValue

/-- The aggregate of some values; for an average the sum and the number. -/
def aggregateOf (kind : TdcAggKind) (values : List Int64) : AggState kind where
  value := aggregateValue kind values
  count := if kind = .avgNumeric then Int64.ofNat values.length else 0
  count_eq := fun h => if_neg h

/-- Whether the aggregate is a COUNT. -/
def Counts : TdcAggKind → Prop
  | .countStar | .countNonnull | .countDistinctNonnull => True
  | .sumInt64 | .sumNumeric | .avgNumeric | .minInt64 | .minNumeric | .maxInt64 | .maxNumeric =>
    False

/-- The state of a group honours the null flags of its inputs: it is that of the inputs that are
not NULL, and without any it comes out as NULL. `COUNT(*)` has no input. -/
structure HonoursNulls {aggs : List TdcAggregateDesc} (columnCount : Nat) (states : States aggs)
    (a : Fin aggs.length) (inputs : List (Int64 × UInt8)) : Prop where
  state : states a = aggregateOf (aggs.get a).kind
    (if (aggs.get a).kind = .countStar then inputs.map Prod.fst else nonNullValues inputs)
  null : ¬ Counts (aggs.get a).kind → nonNullValues inputs = [] →
    ComesOutNull columnCount states a

/-- **The inputs under the null flags leave no trace**: there is an input that is not NULL, and
the values under the flags add nothing to a sum, are nothing below the least and nothing above
the greatest of the others; for an average, there are as many as bring the count round. -/
def NullsLeaveNoTrace (kind : TdcAggKind) (inputs : List (Int64 × UInt8)) : Prop :=
  match kind with
  | .countStar | .countNonnull | .countDistinctNonnull => True
  | .sumInt64 | .sumNumeric =>
    nonNullValues inputs ≠ [] ∧ (valuesUnderNull inputs).foldr (· + ·) 0 = 0
  | .avgNumeric =>
    nonNullValues inputs ≠ [] ∧ (valuesUnderNull inputs).foldr (· + ·) 0 = 0 ∧
      (valuesUnderNull inputs).length % 2 ^ 64 = 0
  | .minInt64 | .minNumeric =>
    nonNullValues inputs ≠ [] ∧
      ∀ v ∈ valuesUnderNull inputs, ∃ w ∈ nonNullValues inputs, w ≤ v
  | .maxInt64 | .maxNumeric =>
    nonNullValues inputs ≠ [] ∧
      ∀ v ∈ valuesUnderNull inputs, ∃ w ∈ nonNullValues inputs, v ≤ w

/-- The state that some inputs lead to. -/
def stateOf (kind : TdcAggKind) (inputs : List (Int64 × UInt8)) : AggState kind :=
  inputs.foldl (fun s input => updateState kind s input.1 input.2) (initState kind)

/-! ## Values of groups -/

section Values

variable (kind : TdcAggKind)

/-- The aggregation of plain values. -/
def valueAggregation : Aggregation Int64 Int64 where
  empty := initValue kind
  unit v := v
  combine := mergeValue kind
  combine_assoc := mergeValue_assoc kind
  combine_comm := mergeValue_comm kind
  empty_combine := initValue_mergeValue kind

theorem aggregateValue_eq_total (hkind : ¬ Counts kind) (values : List Int64) :
    aggregateValue kind values = total (valueAggregation kind) values := by
  induction values with
  | nil => cases kind <;> rfl
  | cons v values ih =>
    rw [total, ← ih]
    cases kind <;> first | rfl | exact absurd trivial hkind

theorem foldl_updateState_value (s : AggState kind) (inputs : List (Int64 × UInt8)) :
    (inputs.foldl (fun s input => updateState kind s input.1 input.2) s).value =
      mergeValue kind s.value (total (valueAggregation kind)
        (inputs.map fun input => unitValue kind input.1 input.2)) := by
  induction inputs generalizing s with
  | nil => exact ((valueAggregation kind).combine_empty s.value).symm
  | cons input inputs ih =>
    rw [List.foldl_cons, ih, updateState_eq, List.map_cons, total]
    exact mergeValue_assoc kind _ _ _

theorem foldl_updateState_count (s : AggState .avgNumeric) (inputs : List (Int64 × UInt8)) :
    (inputs.foldl (fun s input => updateState .avgNumeric s input.1 input.2) s).count =
      s.count + Int64.ofNat inputs.length := by
  induction inputs generalizing s with
  | nil => exact (Int64.add_zero _).symm
  | cons input inputs ih =>
    rw [List.foldl_cons, ih, List.length_cons, Int64.ofNat_add]
    change s.count + 1 + Int64.ofNat inputs.length = s.count + (Int64.ofNat inputs.length + 1)
    rw [Int64.add_assoc, Int64.add_comm 1]

theorem stateOf_value (inputs : List (Int64 × UInt8)) :
    (stateOf kind inputs).value = total (valueAggregation kind)
      (inputs.map fun input => unitValue kind input.1 input.2) := by
  rw [stateOf, foldl_updateState_value]
  exact initValue_mergeValue kind _

theorem stateOf_count (inputs : List (Int64 × UInt8)) :
    (stateOf kind inputs).count = if kind = .avgNumeric then Int64.ofNat inputs.length else 0 := by
  by_cases havg : kind = .avgNumeric
  · subst havg
    rw [if_pos rfl, stateOf, foldl_updateState_count]
    exact Int64.zero_add _
  · rw [if_neg havg]
    exact (stateOf kind inputs).count_eq havg

/-- **What lies under the null flags is merged** into the value of all aggregates but COUNT. -/
theorem stateOf_value_split (hkind : ¬ Counts kind) (inputs : List (Int64 × UInt8)) :
    (stateOf kind inputs).value = mergeValue kind (aggregateValue kind (nonNullValues inputs))
      (aggregateValue kind (valuesUnderNull inputs)) := by
  have hunits : (inputs.map fun input => unitValue kind input.1 input.2) =
      inputs.map Prod.fst := by
    refine List.map_congr_left fun input _ => ?_
    cases kind <;> first | rfl | exact absurd trivial hkind
  have hperm : (inputs.map Prod.fst).Perm (nonNullValues inputs ++ valuesUnderNull inputs) := by
    rw [nonNullValues, valuesUnderNull, ← List.map_append]
    refine (List.Perm.map _ ?_)
    have hsplit := (List.filter_append_perm (fun input : Int64 × UInt8 => decide (input.2 = 0))
      inputs).symm
    simpa using hsplit
  rw [stateOf_value, hunits, total_perm _ hperm, total_append, aggregateValue_eq_total kind hkind,
    aggregateValue_eq_total kind hkind]
  rfl

theorem length_inputs (inputs : List (Int64 × UInt8)) :
    inputs.length = (nonNullValues inputs).length + (valuesUnderNull inputs).length := by
  rw [nonNullValues, valuesUnderNull, List.length_map, List.length_map,
    List.length_eq_length_filter_add (fun input : Int64 × UInt8 => decide (input.2 = 0))]
  simp

end Values

theorem ofNat_eq_zero_iff (n : Nat) : Int64.ofNat n = 0 ↔ n % 2 ^ 64 = 0 := by
  constructor
  · intro h
    have hbits := congrArg (fun v : Int64 => v.toBitVec.toNat) h
    simpa using hbits
  · intro h
    apply Int64.toBitVec_inj.1
    apply BitVec.eq_of_toNat_eq
    simpa using h

/-! ## When NULLs leave no trace -/

theorem le_least_iff (x : Int64) (values : List Int64) :
    x ≤ values.foldr (fun a b => if a ≤ b then a else b) Int64.maxValue ↔ ∀ v ∈ values, x ≤ v := by
  induction values with
  | nil => exact iff_of_true (Int64.le_maxValue x) fun _ h => absurd h List.not_mem_nil
  | cons a values ih =>
    rw [List.foldr_cons, List.forall_mem_cons, ← ih]
    grind

theorem least_le_iff {values : List Int64} (h : values ≠ []) (x : Int64) :
    values.foldr (fun a b => if a ≤ b then a else b) Int64.maxValue ≤ x ↔ ∃ w ∈ values, w ≤ x := by
  induction values with
  | nil => exact absurd rfl h
  | cons a values ih =>
    rw [List.foldr_cons, List.exists_mem_cons_iff]
    cases values with
    | nil =>
      have hmax := Int64.le_maxValue a
      rw [List.foldr_nil, if_pos hmax]
      simp
    | cons b values =>
      rw [← ih (List.cons_ne_nil b values)]
      grind

theorem greatest_le_iff (x : Int64) (values : List Int64) :
    values.foldr (fun a b => if a ≤ b then b else a) Int64.minValue ≤ x ↔ ∀ v ∈ values, v ≤ x := by
  induction values with
  | nil => exact iff_of_true (Int64.minValue_le x) fun _ h => absurd h List.not_mem_nil
  | cons a values ih =>
    rw [List.foldr_cons, List.forall_mem_cons, ← ih]
    grind

theorem le_greatest_iff {values : List Int64} (h : values ≠ []) (x : Int64) :
    x ≤ values.foldr (fun a b => if a ≤ b then b else a) Int64.minValue ↔ ∃ w ∈ values, x ≤ w := by
  induction values with
  | nil => exact absurd rfl h
  | cons a values ih =>
    rw [List.foldr_cons, List.exists_mem_cons_iff]
    cases values with
    | nil =>
      have hmin := Int64.minValue_le a
      rw [List.foldr_nil]
      grind
    | cons b values =>
      rw [← ih (List.cons_ne_nil b values)]
      grind

/-- A COUNT counts what it should. -/
theorem stateOf_of_counts {kind : TdcAggKind} (hkind : Counts kind)
    (inputs : List (Int64 × UInt8)) : stateOf kind inputs = aggregateOf kind
      (if kind = .countStar then inputs.map Prod.fst else nonNullValues inputs) := by
  have havg : kind ≠ .avgNumeric := by
    rintro rfl
    exact hkind
  refine AggState.ext ?_ (((stateOf kind inputs).count_eq havg).trans (if_neg havg).symm)
  rw [stateOf_value]
  induction inputs with
  | nil => cases kind <;> rfl
  | cons input inputs ih =>
    rw [List.map_cons, total, ih]
    have hsucc : ∀ n : Nat, 1 + Int64.ofNat n = Int64.ofNat (n + 1) := by
      intro n
      rw [Int64.ofNat_add, Int64.add_comm]
      rfl
    cases kind with
    | countStar =>
      change 1 + Int64.ofNat (inputs.map Prod.fst).length =
        Int64.ofNat ((input :: inputs).map Prod.fst).length
      rw [hsucc, List.map_cons, List.length_cons]
    | countNonnull | countDistinctNonnull =>
      change (if input.2 = 0 then 1 else 0) + Int64.ofNat (nonNullValues inputs).length =
        Int64.ofNat (nonNullValues (input :: inputs)).length
      by_cases hnull : input.2 = 0
      · rw [if_pos hnull, hsucc, nonNullValues, nonNullValues,
          List.filter_cons_of_pos (by simpa using hnull), List.map_cons, List.length_cons]
      · rw [if_neg hnull, Int64.zero_add, nonNullValues, nonNullValues,
          List.filter_cons_of_neg (by simpa using hnull)]
    | sumInt64 | sumNumeric | avgNumeric | minInt64 | minNumeric | maxInt64 | maxNumeric =>
      exact absurd hkind id

/-- Merging keeps a value exactly when what is merged leaves no trace. -/
theorem mergeValue_aggregateValue_iff {kind : TdcAggKind} (hkind : ¬ Counts kind)
    (havg : kind ≠ .avgNumeric) {inputs : List (Int64 × UInt8)}
    (hsome : nonNullValues inputs ≠ []) :
    mergeValue kind (aggregateValue kind (nonNullValues inputs))
        (aggregateValue kind (valuesUnderNull inputs)) =
      aggregateValue kind (nonNullValues inputs) ↔ NullsLeaveNoTrace kind inputs := by
  cases kind with
  | sumInt64 | sumNumeric =>
    dsimp only [mergeValue, aggregateValue, NullsLeaveNoTrace]
    rw [Int64.add_eq_left, and_iff_right hsome]
  | minInt64 | minNumeric =>
    dsimp only [mergeValue, aggregateValue, NullsLeaveNoTrace]
    rw [ite_eq_left_iff, and_iff_right hsome]
    simp only [← least_le_iff hsome, ← le_least_iff]
    grind
  | maxInt64 | maxNumeric =>
    dsimp only [mergeValue, aggregateValue, NullsLeaveNoTrace]
    rw [and_iff_right hsome]
    simp only [← le_greatest_iff hsome, ← greatest_le_iff]
    grind
  | avgNumeric => exact absurd rfl havg
  | countStar | countNonnull | countDistinctNonnull => exact absurd trivial hkind

/-- **When a state honours the null flags.** -/
theorem stateOf_honours_iff (kind : TdcAggKind) (inputs : List (Int64 × UInt8)) :
    stateOf kind inputs = aggregateOf kind
        (if kind = .countStar then inputs.map Prod.fst else nonNullValues inputs) ∧
      (¬ Counts kind → nonNullValues inputs ≠ []) ↔ NullsLeaveNoTrace kind inputs := by
  by_cases hcounts : Counts kind
  · have htrue : NullsLeaveNoTrace kind inputs := by
      cases kind <;> first | exact trivial | exact False.elim hcounts
    exact iff_of_true ⟨stateOf_of_counts hcounts inputs, fun h => absurd hcounts h⟩ htrue
  · have hstar : kind ≠ .countStar := by
      rintro rfl
      exact hcounts trivial
    have hsome : NullsLeaveNoTrace kind inputs → nonNullValues inputs ≠ [] := by
      intro h
      cases kind <;> first | exact h.1 | exact absurd trivial hcounts
    rw [if_neg hstar, imp_iff_right hcounts]
    by_cases havg : kind = .avgNumeric
    · -- the sum is that of the same values as for a sum, and the count must not move either
      subst havg
      constructor
      · rintro ⟨hstate, hne⟩
        have hvalue := congrArg AggState.value hstate
        have hcount := congrArg AggState.count hstate
        rw [stateOf_value_split _ hcounts] at hvalue
        rw [stateOf_count, if_pos rfl, length_inputs, Int64.ofNat_add] at hcount
        exact ⟨hne, Int64.add_eq_left.1 hvalue,
          (ofNat_eq_zero_iff _).1 (Int64.add_eq_left.1 hcount)⟩
      · rintro ⟨hne, hsum, hlength⟩
        refine ⟨AggState.ext ?_ ?_, hne⟩
        · rw [stateOf_value_split _ hcounts]
          exact Int64.add_eq_left.2 hsum
        · rw [stateOf_count, if_pos rfl, length_inputs, Int64.ofNat_add]
          exact Int64.add_eq_left.2 ((ofNat_eq_zero_iff _).2 hlength)
    · constructor
      · rintro ⟨hstate, hne⟩
        have hvalue := congrArg AggState.value hstate
        rw [stateOf_value_split _ hcounts] at hvalue
        exact (mergeValue_aggregateValue_iff hcounts havg hne).1 hvalue
      · intro h
        have hvalue := (mergeValue_aggregateValue_iff hcounts havg (hsome h)).2 h
        refine ⟨AggState.ext ?_ ?_, hsome h⟩
        · rw [stateOf_value_split _ hcounts]
          exact hvalue
        · exact (AggState.count_eq _ havg).trans (if_neg havg).symm

/-! ## Chunks one after the other -/

section Chunks

variable {aggs : List TdcAggregateDesc}

/-- A chunk, and for its rows the rows of the store they go to. -/
abbrev Step := DataChunk × List (Nat × Nat)

/-- The rows that some chunks bring to a row of the store. -/
def rowsOf (steps : List Step) (r : Nat) : List ChunkRow :=
  steps.flatMap fun step => rowsFor step.1 step.2 r

/-- Every chunk is updated row by row. -/
def runInOrder (steps : List Step) (store : Nat → States aggs) : Nat → States aggs :=
  steps.foldl (fun store step => updateAggregatesInOrder step.1 step.2 store) store

/-- Every chunk is updated by one of the two grouped updates. -/
def runGrouped (update : DataChunk → List (Nat × Nat) → (Nat → States aggs) →
    Option (Nat → States aggs)) (steps : List Step) (store : Nat → States aggs) :
    Option (Nat → States aggs) :=
  steps.foldlM (fun store step => update step.1 step.2 store) store

theorem runInOrder_apply (steps : List Step) (store : Nat → States aggs) (r : Nat) :
    runInOrder steps store r = (rowsOf steps r).foldl updateAggregates (store r) := by
  induction steps generalizing store with
  | nil => rfl
  | cons step steps ih =>
    rw [runInOrder, List.foldl_cons]
    refine (ih _).trans ?_
    rw [updateAggregatesInOrder_apply, ← foldl_updateAggregates, ← List.foldl_append]
    rfl

theorem runGrouped_eq {update : DataChunk → List (Nat × Nat) → (Nat → States aggs) →
    Option (Nat → States aggs)} {steps : List Step}
    (hupdate : ∀ step ∈ steps, ∀ store,
      update step.1 step.2 store = some (updateAggregatesInOrder step.1 step.2 store))
    (store : Nat → States aggs) : runGrouped update steps store = some (runInOrder steps store) := by
  induction steps generalizing store with
  | nil => rfl
  | cons step steps ih =>
    rw [runGrouped, List.foldlM_cons, hupdate step List.mem_cons_self]
    exact ih (fun s hs => hupdate s (List.mem_cons_of_mem _ hs)) _

theorem foldl_updateAggregates_apply (rows : List ChunkRow) (states : States aggs)
    (a : Fin aggs.length) :
    rows.foldl updateAggregates states a = (rows.map (inputOf (aggs.get a))).foldl
      (fun s input => updateState (aggs.get a).kind s input.1 input.2) (states a) := by
  induction rows generalizing states with
  | nil => rfl
  | cons row rows ih =>
    rw [List.foldl_cons, ih]
    rfl

/-- The states of a row honour the null flags exactly when the flagged inputs leave no trace. -/
theorem honoursNulls_iff (columnCount : Nat) (steps : List Step) (r : Nat) (a : Fin aggs.length) :
    HonoursNulls columnCount (runInOrder steps (fun _ => initStates) r) a
        ((rowsOf steps r).map (inputOf (aggs.get a))) ↔
      NullsLeaveNoTrace (aggs.get a).kind ((rowsOf steps r).map (inputOf (aggs.get a))) := by
  rw [← stateOf_honours_iff]
  have hstate : runInOrder steps (fun _ => initStates) r a =
      stateOf (aggs.get a).kind ((rowsOf steps r).map (inputOf (aggs.get a))) := by
    rw [runInOrder_apply, foldl_updateAggregates_apply]
    rfl
  constructor
  · intro h
    refine ⟨hstate ▸ h.state, fun hcounts hnil => ?_⟩
    exact not_comesOutNull _ _ _ (h.null hcounts hnil)
  · rintro ⟨hvalue, hsome⟩
    exact ⟨hstate.trans hvalue, fun hcounts hnil => absurd hnil (hsome hcounts)⟩

/-- **Aggregates and NULL.** After any chunks, on each of the update paths, an aggregate of a row
of the store is that of the inputs that are not NULL, and NULL where there are none, exactly when
the inputs under the null flags leave no trace. -/
theorem null_flags_honoured_iff (columnCount : Nat) (steps : List Step)
    (hsteps : ∀ step ∈ steps, step.2.length ≤ pipelineDefaultChunkSize) (r : Nat)
    (a : Fin aggs.length) :
    (HonoursNulls columnCount (runInOrder steps (fun _ => initStates) r) a
        ((rowsOf steps r).map (inputOf (aggs.get a))) ↔
      NullsLeaveNoTrace (aggs.get a).kind ((rowsOf steps r).map (inputOf (aggs.get a)))) ∧
    (∃ store, runGrouped updateAggregatesGather steps (fun _ => initStates) = some store ∧
      (HonoursNulls columnCount (store r) a ((rowsOf steps r).map (inputOf (aggs.get a))) ↔
        NullsLeaveNoTrace (aggs.get a).kind ((rowsOf steps r).map (inputOf (aggs.get a))))) ∧
    ∃ store, runGrouped updateAggregatesBatch steps (fun _ => initStates) = some store ∧
      (HonoursNulls columnCount (store r) a ((rowsOf steps r).map (inputOf (aggs.get a))) ↔
        NullsLeaveNoTrace (aggs.get a).kind ((rowsOf steps r).map (inputOf (aggs.get a)))) := by
  refine ⟨honoursNulls_iff columnCount steps r a, ?_, ?_⟩
  · exact ⟨_, runGrouped_eq (fun step hstep store =>
      updateAggregatesGather_eq step.1 step.2 (hsteps step hstep) store) _,
      honoursNulls_iff columnCount steps r a⟩
  · exact ⟨_, runGrouped_eq (fun step hstep store =>
      updateAggregatesBatch_eq step.1 step.2 (hsteps step hstep) store) _,
      honoursNulls_iff columnCount steps r a⟩

/-- Two rows of a group, the second with 7 under its null flag. -/
def nullableChunk : DataChunk :=
  int64Chunk 2 (fun row => if row = 0 then 5 else 7) fun row => if row = 0 then 0 else 1

/-- A least value that the value under the flag does not change. -/
theorem null_flags_honoured_iff_least :
    (HonoursNulls 1 (runInOrder [(nullableChunk, [(0, 0), (0, 1)])] (fun _ => initStates) 0 :
        States [⟨.minInt64, 0, 0, 0, 0⟩]) ⟨0, by decide⟩
        ((rowsOf [(nullableChunk, [(0, 0), (0, 1)])] 0).map (inputOf ⟨.minInt64, 0, 0, 0, 0⟩)) ↔
      NullsLeaveNoTrace .minInt64
        ((rowsOf [(nullableChunk, [(0, 0), (0, 1)])] 0).map (inputOf ⟨.minInt64, 0, 0, 0, 0⟩))) :=
  (@null_flags_honoured_iff [⟨.minInt64, 0, 0, 0, 0⟩] 1 [(nullableChunk, [(0, 0), (0, 1)])]
    (by simp [pipelineDefaultChunkSize]) 0 ⟨0, by decide⟩).1

/-- **A sum takes what lies under a null flag**: 12 instead of 5. -/
theorem sum_takes_value_under_null :
    ¬ HonoursNulls 1 (runInOrder [(nullableChunk, [(0, 0), (0, 1)])] (fun _ => initStates) 0 :
      States [⟨.sumInt64, 0, 0, 0, 0⟩]) ⟨0, by decide⟩
      ((rowsOf [(nullableChunk, [(0, 0), (0, 1)])] 0).map (inputOf ⟨.sumInt64, 0, 0, 0, 0⟩)) := by
  intro h
  have hstate := h.state
  revert hstate
  decide

end Chunks

end AggregateStates
end PgYaap
