import PgYaap.DecorrelatedLimit

/-! # The rows of a decorrelated LIMIT

The plan that `PushDownLimit` builds, which filters of the subquery it lifts and what the
filter on the row number keeps: the numbers within LIMIT and OFFSET, when all of them are
known. -/
namespace PgYaap
namespace DecorrelatedLimit

open LogicalPlan Expression ExpressionEvaluation RankedRows

/-! ## What the rewrite builds -/

/-- The inner sides of the lifted equalities. -/
def innerSides (allowedTables : Finset Nat) (lifted : List Expression) : List Expression :=
  (lifted.filterMap (extractDecorrelatedEquality allowedTables)).map Prod.fst

theorem splitLiftedFilters_eq {allowedTables : Finset Nat} {lifted : List Expression}
    {split : List Expression × List Expression}
    (h : splitLiftedFilters allowedTables lifted = some split) :
    split = (innerSides allowedTables lifted, lifted) := by
  induction lifted generalizing split with
  | nil =>
    obtain rfl := Option.some.inj h
    rfl
  | cons e es ih =>
    rw [splitLiftedFilters] at h
    cases hequality : extractDecorrelatedEquality allowedTables e with
    | some sides =>
      rw [hequality] at h
      obtain ⟨rest, hrest, rfl⟩ := Option.map_eq_some_iff.1 h
      rw [ih hrest, innerSides, innerSides, List.filterMap_cons_some hequality, List.map_cons]
    | none =>
      rw [hequality] at h
      by_cases houter : e.referencedTables ∩ allowedTables = ∅
      · obtain ⟨rest, hrest, rfl⟩ := Option.map_eq_some_iff.1 ((if_pos houter).symm.trans h)
        rw [ih hrest, innerSides, innerSides, List.filterMap_cons_none hequality]
      · exact absurd ((if_neg houter).symm.trans h) nofun

variable {pushDownCorrelatedNode : LogicalOperator → Option (LogicalOperator × List Expression)}
  {windowTableIndex : Nat} {allowedTables : Finset Nat} {limitCount limitOffset : Option Expression}
  {child pushed plan : LogicalOperator} {childLifted lifted : List Expression}

/-- What `PushDownLimit` builds over a correlated child. -/
theorem pushDownLimit_eq_some
    (hcorrelated : subtreeHasCorrelatedReferences allowedTables (takeOrder child).2 = true)
    (hpushed : pushDownCorrelatedNode (takeOrder child).2 = some (pushed, childLifted))
    (hplan : pushDownLimit pushDownCorrelatedNode windowTableIndex allowedTables limitCount
      limitOffset child = some (plan, lifted)) :
    lifted = childLifted ∧ ∃ rownumFilter,
      buildDecorrelatedLimitRowNumberFilter limitCount limitOffset windowTableIndex =
        some rownumFilter ∧
      plan = .filter [rownumFilter] (.window windowTableIndex ["row_number"]
        (innerSides allowedTables childLifted) (takeOrder child).1 pushed) := by
  rw [pushDownLimit] at hplan
  dsimp only at hplan
  by_cases hrefused : (!limitCount.all (referencesOnlyAllowedTables allowedTables) ||
      !limitOffset.all (referencesOnlyAllowedTables allowedTables) ||
      !(takeOrder child).1.all (referencesOnlyAllowedTables allowedTables)) = true
  · exact absurd ((if_pos hrefused).symm.trans hplan) nofun
  · rw [if_neg hrefused, if_neg (by rw [hcorrelated]; exact Bool.false_ne_true), hpushed] at hplan
    obtain ⟨_, hfirst, hsplits⟩ := Option.bind_eq_some_iff.1 hplan
    obtain rfl := Option.some.inj hfirst
    obtain ⟨⟨partitions, remaining⟩, hsplit, hrest⟩ := Option.bind_eq_some_iff.1 hsplits
    dsimp only at hsplit hrest
    obtain ⟨hpartitions, hremaining⟩ := Prod.mk.inj (splitLiftedFilters_eq hsplit)
    subst partitions remaining
    by_cases hnone : innerSides allowedTables childLifted = []
    · exact absurd ((if_pos hnone).symm.trans hrest) nofun
    · obtain ⟨rownumFilter, hfilter, hbuilt⟩ :=
        Option.bind_eq_some_iff.1 ((if_neg hnone).symm.trans hrest)
      obtain ⟨rfl, rfl⟩ := Prod.mk.inj (Option.some.inj hbuilt)
      exact ⟨rfl, rownumFilter, hfilter, rfl⟩

/-! ## The filters of a scan -/

variable {V : Type} {I : Interpretation V} {B : Bigints I}

theorem truthOf_and (row : Env V) (children : List Expression) :
    truthOf I row (conjunction 0 children) = some true ↔
      ∀ e ∈ children, truthOf I row e = some true := by
  have hall : truthOf I row (conjunction 0 children) =
      ThreeValuedLogic.allOf (children.map (truthOf I row)) := by
    rw [truthOf, value, I.truth_ofTruth, values_eq_map, List.map_map]
    rfl
  rw [hall, ThreeValuedLogic.allOf_eq_true, List.forall_mem_map]

theorem lifted_append {es es' : List Expression} {outer row : Env V} :
    Lifted I allowedTables (es ++ es') outer row ↔
      Lifted I allowedTables es outer row ∧ Lifted I allowedTables es' outer row :=
  List.forall_mem_append

theorem lifted_splitConjunctions {es : List Expression} {outer row : Env V} :
    Lifted I allowedTables (splitConjunctions es) outer row ↔
      Lifted I allowedTables es outer row := by
  induction es with
  | nil => exact Iff.rfl
  | cons e es ih =>
    rw [splitConjunctions, List.flatMap_cons, lifted_append]
    refine Iff.trans (and_congr ?_ ih) List.forall_mem_cons.symm
    split
    · exact (truthOf_and _ _).symm
    · exact List.forall_mem_singleton

/-- A filter holds of a row when its kept part does and its lifted part does. -/
theorem lifted_extractCorrelatedExpressions {es : List Expression} {outer row : Env V} :
    Lifted I allowedTables es outer row ↔
      Lifted I allowedTables (extractCorrelatedExpressions allowedTables es).1 outer row ∧
        Lifted I allowedTables (extractCorrelatedExpressions allowedTables es).2 outer row := by
  rw [← lifted_splitConjunctions, extractCorrelatedExpressions, List.partition_eq_filter_filter]
  constructor
  · exact fun h => ⟨fun e he => h e (List.mem_of_mem_filter he),
      fun e he => h e (List.mem_of_mem_filter he)⟩
  · rintro ⟨hkept, hlifted⟩ e he
    by_cases hinner : referencesOnlyAllowedTables allowedTables e = true
    · exact hkept e (List.mem_filter.2 ⟨he, hinner⟩)
    · exact hlifted e (List.mem_filter.2 ⟨he, by simpa using hinner⟩)

/-- **The child.** The rows of filters over a scan for an outer row are the rows of the
pushed plan on which the lifted filters hold. -/
theorem scanRows_pushDownScan (tables : Nat → List (Env V)) (outer : Env V)
    {op : LogicalOperator}
    (h : pushDownScan allowedTables op = some (pushed, childLifted)) :
    scanRows I tables allowedTables outer op =
      (scanRows I tables allowedTables outer pushed).filter fun row =>
        Lifted I allowedTables childLifted outer row := by
  induction op generalizing pushed childLifted with
  | get g =>
    obtain ⟨rfl, rfl⟩ := Prod.mk.inj (Option.some.inj h)
    rw [scanRows, scanRows, List.filter_filter]
    refine List.filter_congr fun row _ => ?_
    rw [← Bool.decide_and, decide_eq_decide, lifted_extractCorrelatedExpressions, and_comm]
  | filter es child ih =>
    obtain ⟨rest, hrest, heq⟩ := Option.map_eq_some_iff.1 h
    obtain ⟨rfl, rfl⟩ := Prod.mk.inj heq
    have hkept : scanRows I tables allowedTables outer
        (if (extractCorrelatedExpressions allowedTables es).1 = [] then rest.1
          else .filter (extractCorrelatedExpressions allowedTables es).1 rest.1) =
        (scanRows I tables allowedTables outer rest.1).filter fun row =>
          Lifted I allowedTables (extractCorrelatedExpressions allowedTables es).1 outer row := by
      by_cases hnone : (extractCorrelatedExpressions allowedTables es).1 = []
      · rw [if_pos hnone, hnone]
        exact (List.filter_eq_self.2 fun row _ => decide_eq_true fun e he =>
          absurd he List.not_mem_nil).symm
      · rw [if_neg hnone, scanRows]
    rw [hkept, scanRows, ih hrest, List.filter_filter, List.filter_filter]
    refine List.filter_congr fun row _ => ?_
    have hsplit := @lifted_extractCorrelatedExpressions allowedTables _ I es outer row
    rw [← Bool.decide_and, ← Bool.decide_and, decide_eq_decide, lifted_append, hsplit]
    tauto
  | _ => exact absurd h nofun

/-! ## Equalities between inner and outer columns -/

/-- The outer side of a lifted equality has no inner column, and other filters have none
at all. -/
def SeparatesSides (allowedTables : Finset Nat) (lifted : List Expression) : Prop :=
  ∀ e ∈ lifted, ((extractDecorrelatedEquality allowedTables e).elim e
    Prod.snd).referencedTables ∩ allowedTables = ∅

theorem extractDecorrelatedEquality_cases {e inner outerSide : Expression}
    (h : extractDecorrelatedEquality allowedTables e = some (inner, outerSide)) :
    inner.referencedTables ⊆ allowedTables ∧ ∃ opOid,
      e = function "=" opOid [inner, outerSide] ∨ e = function "=" opOid [outerSide, inner] := by
  cases e with
  | function functionName opOid children =>
    match children, h with
    | [left, right], h =>
      rw [extractDecorrelatedEquality] at h
      by_cases hnone : functionName ≠ "=" ∨ referencesOnlyAllowedTables allowedTables left =
          referencesOnlyAllowedTables allowedTables right
      · exact absurd ((if_pos hnone).symm.trans h) nofun
      · have hsides := (if_neg hnone).symm.trans h
        rw [not_or, not_not] at hnone
        obtain ⟨rfl, hdiffer⟩ := hnone
        by_cases hleft : referencesOnlyAllowedTables allowedTables left = true
        · obtain ⟨rfl, rfl⟩ := Prod.mk.inj (Option.some.inj ((if_pos hleft).symm.trans hsides))
          exact ⟨of_decide_eq_true hleft, opOid, Or.inl rfl⟩
        · obtain ⟨rfl, rfl⟩ := Prod.mk.inj (Option.some.inj ((if_neg hleft).symm.trans hsides))
          refine ⟨of_decide_eq_true ?_, opOid, Or.inr rfl⟩
          exact (Bool.eq_not_of_ne (Ne.symm hdiffer)).trans (by simpa using hleft)
  | _ => exact absurd h nofun

variable {outer : Env V}

theorem value_combined_of_inner {e : Expression} (h : e.referencedTables ⊆ allowedTables)
    (row : Env V) : value I (combined allowedTables outer row) e = value I row e :=
  value_congr e fun _ hb => if_pos (h (Finset.mem_image_of_mem _ hb))

theorem value_combined_of_outer {e : Expression} (h : e.referencedTables ∩ allowedTables = ∅)
    (row : Env V) : value I (combined allowedTables outer row) e = value I outer e := by
  refine value_congr e fun b hb => if_neg fun hallowed => ?_
  have hmem : b.tableIndex ∈ e.referencedTables ∩ allowedTables :=
    Finset.mem_inter.2 ⟨Finset.mem_image_of_mem _ hb, hallowed⟩
  rw [h] at hmem
  exact Finset.notMem_empty _ hmem

/-- **One group.** Where `=` holds of equal values only, equalities with one inner side lift
the whole group of their outer sides. -/
theorem SeparatesSides.firstOfGroup (h : SeparatesSides allowedTables lifted)
    (hequal : ∀ opOid a b, I.truth (I.function "=" opOid [a, b]) = some true → a = b)
    (precedes : Env V → Env V → Prop) :
    FirstOfGroup (fun row => values I row (innerSides allowedTables lifted)) precedes
      (Lifted I allowedTables lifted outer) := by
  intro row row' hrow'
  constructor
  · intro hrow
    dsimp only
    rw [values_eq_map, values_eq_map]
    refine List.map_congr_left fun inner hinner => ?_
    obtain ⟨⟨_, outerSide⟩, hmem, rfl⟩ := List.mem_map.1 hinner
    obtain ⟨e, he, hextract⟩ := List.mem_filterMap.1 hmem
    have hout : outerSide.referencedTables ∩ allowedTables = ∅ := by
      have hsides := h _ he
      rwa [hextract] at hsides
    obtain ⟨hsub, opOid, rfl | rfl⟩ := extractDecorrelatedEquality_cases hextract
    · have hleft := hequal opOid _ _ (hrow _ he)
      have hright := hequal opOid _ _ (hrow' _ he)
      rw [value_combined_of_inner hsub, value_combined_of_outer hout] at hleft hright
      exact hleft.trans hright.symm
    · have hleft := hequal opOid _ _ (hrow _ he)
      have hright := hequal opOid _ _ (hrow' _ he)
      rw [value_combined_of_inner hsub, value_combined_of_outer hout] at hleft hright
      exact hleft.symm.trans hright
  · intro hsame _ e he
    have hout := h e he
    cases hextract : extractDecorrelatedEquality allowedTables e with
    | none =>
      rw [hextract] at hout
      have heq : value I (combined allowedTables outer row) e =
          value I (combined allowedTables outer row') e :=
        (value_combined_of_outer hout row).trans (value_combined_of_outer hout row').symm
      exact (congrArg I.truth heq).trans (hrow' e he)
    | some sides =>
      obtain ⟨inner, outerSide⟩ := sides
      rw [hextract] at hout
      obtain ⟨hsub, opOid, hshape⟩ := extractDecorrelatedEquality_cases hextract
      have hmem : inner ∈ innerSides allowedTables lifted :=
        List.mem_map.2 ⟨_, List.mem_filterMap.2 ⟨e, he, hextract⟩, rfl⟩
      have hinner : value I (combined allowedTables outer row) inner =
          value I (combined allowedTables outer row') inner := by
        rw [value_combined_of_inner hsub, value_combined_of_inner hsub]
        dsimp only at hsame
        rw [values_eq_map, values_eq_map] at hsame
        exact List.map_inj_left.1 hsame inner hmem
      have houter : value I (combined allowedTables outer row) outerSide =
          value I (combined allowedTables outer row') outerSide :=
        (value_combined_of_outer hout row).trans (value_combined_of_outer hout row').symm
      have heq : value I (combined allowedTables outer row) e =
          value I (combined allowedTables outer row') e := by
        rcases hshape with rfl | rfl
        · rw [value, value, values, values, values, values, values, values, hinner, houter]
        · rw [value, value, values, values, values, values, values, values, hinner, houter]
      exact (congrArg I.truth heq).trans (hrow' e he)

/-! ## The filter on the row number -/

/-- Every number that the filter compares with is known and in range. -/
structure ComparesRowNumbers (I : Interpretation V) (B : Bigints I)
    (limitCount limitOffset : Option Expression) : Prop where
  count_known : limitCount ≠ none → limitValue I B limitCount ≠ none
  offset_known : limitOffset ≠ none → limitValue I B limitOffset ≠ none
  sum_fits : ∀ n ∈ limitValue I B limitCount, ∀ m ∈ limitValue I B limitOffset, FitsBigint (n + m)

/-- A clause of type `bigint` has the same value on every row. -/
theorem value_of_isBigint {e : Expression} (h : IsBigint I B e) (row : Env V) :
    value I row e = (limitValue I B (some e)).map B.ofInt := by
  have hrow : value I row e = value I (fun _ => none) e :=
    value_congr e fun b hb => absurd (h.1 ▸ hb) (Finset.notMem_empty b)
  rw [hrow, limitValue, Option.bind_some]
  cases hvalue : value I (fun _ => none) e with
  | none => rfl
  | some v =>
    obtain ⟨n, -, rfl⟩ := h.2 v hvalue
    rw [Option.map_some, Option.map_some, B.toInt_ofInt]

variable {e count offset : Expression} {row : Env V} {rank : Nat}

theorem truthOf_upper (hrank : row (limitRownum windowTableIndex) = some (B.ofInt rank))
    (hvalue : value I row e = (limitValue I B limitCount).map B.ofInt) :
    truthOf I row (function "<=" invalidOid [columnRef (limitRownum windowTableIndex), e]) =
        some true ↔
      ∃ n, limitValue I B limitCount = some n ∧ (rank : Int) ≤ n := by
  rw [truthOf, value, values, values, values, value, hrank, hvalue]
  change I.truth (I.function "<=" invalidOid [some (B.ofInt rank), _]) = some true ↔ _
  cases limitValue I B limitCount with
  | none =>
    rw [Option.map_none, B.le_null, B.truth_null]
    simp
  | some n =>
    rw [Option.map_some, B.le_ofInt, I.truth_ofTruth]
    simp

theorem truthOf_lower (hrank : row (limitRownum windowTableIndex) = some (B.ofInt rank))
    (hvalue : value I row e = (limitValue I B limitOffset).map B.ofInt) :
    truthOf I row (function ">" invalidOid [columnRef (limitRownum windowTableIndex), e]) =
        some true ↔
      ∃ m, limitValue I B limitOffset = some m ∧ m < rank := by
  rw [truthOf, value, values, values, values, value, hrank, hvalue]
  change I.truth (I.function ">" invalidOid [some (B.ofInt rank), _]) = some true ↔ _
  cases limitValue I B limitOffset with
  | none =>
    rw [Option.map_none, B.gt_null, B.truth_null]
    simp
  | some n =>
    rw [Option.map_some, B.gt_ofInt, I.truth_ofTruth]
    simp

/-- The upper bound when there is an OFFSET too. -/
theorem truthOf_upper_sum (hrank : row (limitRownum windowTableIndex) = some (B.ofInt rank))
    (hcount : value I row count = (limitValue I B limitCount).map B.ofInt)
    (hoffset : value I row offset = (limitValue I B limitOffset).map B.ofInt) :
    truthOf I row (function "<=" invalidOid [columnRef (limitRownum windowTableIndex),
        function "+" invalidOid [count, offset]]) = some true ↔
      ∃ n m, limitValue I B limitCount = some n ∧ limitValue I B limitOffset = some m ∧
        FitsBigint (n + m) ∧ (rank : Int) ≤ n + m := by
  rw [truthOf, value, values, values, values, value, value, values, values, values, hrank,
    hcount, hoffset]
  change I.truth (I.function "<=" invalidOid [some (B.ofInt rank),
    I.function "+" invalidOid [_, _]]) = some true ↔ _
  cases limitValue I B limitCount with
  | none =>
    rw [Option.map_none, B.add_null_left, B.le_null, B.truth_null]
    simp
  | some n =>
    cases limitValue I B limitOffset with
    | none =>
      rw [Option.map_none, B.add_null_right, B.le_null, B.truth_null]
      simp
    | some m =>
      rw [Option.map_some, Option.map_some]
      by_cases hfits : FitsBigint (n + m)
      · rw [B.add_ofInt n m hfits, B.le_ofInt, I.truth_ofTruth]
        simp [hfits]
      · refine iff_of_false (B.add_overflow n m hfits _) ?_
        rintro ⟨n', m', hn, hm, hfits', -⟩
        obtain rfl := Option.some.inj hn
        obtain rfl := Option.some.inj hm
        exact hfits hfits'

/-- **The filter.** It keeps the numbers within LIMIT and OFFSET, and nothing when a number
it compares with is NULL or out of range. -/
theorem truthOf_rownumFilter {rownumFilter : Expression}
    (hcount : ∀ e ∈ limitCount, IsBigint I B e) (hoffset : ∀ e ∈ limitOffset, IsBigint I B e)
    (hfilter : buildDecorrelatedLimitRowNumberFilter limitCount limitOffset windowTableIndex =
      some rownumFilter)
    (hrank : row (limitRownum windowTableIndex) = some (B.ofInt rank)) (hpos : 0 < rank) :
    truthOf I row rownumFilter = some true ↔
      ComparesRowNumbers I B limitCount limitOffset ∧
        WithinLimit (limitValue I B limitCount) (limitValue I B limitOffset) rank := by
  cases limitCount with
  | none =>
    cases limitOffset with
    | none => exact absurd hfilter nofun
    | some offset =>
      obtain rfl := Option.some.inj hfilter
      rw [truthOf_lower hrank (value_of_isBigint (hoffset offset rfl) row)]
      constructor
      · rintro ⟨m, hm, hlt⟩
        refine ⟨⟨nofun, fun _ => by rw [hm]; exact Option.some_ne_none m, nofun⟩, ?_, nofun⟩
        rw [hm]
        exact hlt
      · rintro ⟨hknown, hlt, -⟩
        obtain ⟨m, hm⟩ := Option.ne_none_iff_exists'.1 (hknown.offset_known (Option.some_ne_none _))
        rw [hm] at hlt
        exact ⟨m, hm, hlt⟩
  | some count =>
    cases limitOffset with
    | none =>
      obtain rfl := Option.some.inj hfilter
      rw [truthOf_upper hrank (value_of_isBigint (hcount count rfl) row)]
      constructor
      · rintro ⟨n, hn, hle⟩
        refine ⟨⟨fun _ => by rw [hn]; exact Option.some_ne_none n, nofun, fun _ _ => nofun⟩,
          Int.natCast_pos.2 hpos, ?_⟩
        intro k hk
        obtain rfl := Option.some.inj (hn.symm.trans hk)
        exact hle.trans (by simp [limitValue])
      · rintro ⟨hknown, -, hle⟩
        obtain ⟨n, hn⟩ := Option.ne_none_iff_exists'.1 (hknown.count_known (Option.some_ne_none _))
        refine ⟨n, hn, (hle n hn).trans ?_⟩
        simp [limitValue]
    | some offset =>
      obtain rfl := Option.some.inj hfilter
      dsimp only
      rw [truthOf_and, List.forall_mem_cons, List.forall_mem_singleton,
        truthOf_lower hrank (value_of_isBigint (hoffset offset rfl) row),
        truthOf_upper_sum hrank (value_of_isBigint (hcount count rfl) row)
          (value_of_isBigint (hoffset offset rfl) row)]
      constructor
      · rintro ⟨⟨m, hm, hlt⟩, n, m', hn, hm', hfits, hle⟩
        obtain rfl := Option.some.inj (hm.symm.trans hm')
        refine ⟨⟨fun _ => by rw [hn]; exact Option.some_ne_none n,
          fun _ => by rw [hm]; exact Option.some_ne_none m, ?_⟩, ?_, ?_⟩
        · rw [hn, hm]
          rintro _ ⟨⟩ _ ⟨⟩
          exact hfits
        · rw [hm]
          exact hlt
        · rw [hn, hm]
          rintro _ ⟨⟩
          exact hle
      · rintro ⟨hknown, hlt, hle⟩
        obtain ⟨n, hn⟩ := Option.ne_none_iff_exists'.1 (hknown.count_known (Option.some_ne_none _))
        obtain ⟨m, hm⟩ := Option.ne_none_iff_exists'.1 (hknown.offset_known (Option.some_ne_none _))
        have hle' := hle n hn
        rw [hm] at hlt hle'
        exact ⟨⟨m, hm, hlt⟩, n, m, hn, hm, hknown.sum_fits n hn m hm, hle'⟩

/-! ## The rows of the plan -/

variable [LinearOrder V]

theorem Returns.sizeOf_le {input op : LogicalOperator} {rows out : List (Env V)}
    (h : Returns I B input rows op out) : sizeOf input ≤ sizeOf op := by
  induction h with
  | input => exact le_rfl
  | filter expressions h ih => exact ih.trans (by simp)
  | rowNumber tableIndex partitions orders h hperm hsorted ih => exact ih.trans (by simp)

theorem Returns.eq_rows {input : LogicalOperator} {rows out : List (Env V)}
    (h : Returns I B input rows input out) : out = rows := by
  cases h with
  | input => rfl
  | filter expressions h =>
    have hle := h.sizeOf_le
    simp at hle
  | rowNumber tableIndex partitions orders h hperm hsorted =>
    have hle := h.sizeOf_le
    simp at hle

/-- The rows of a filter over a window. -/
theorem returns_filter_window_iff {rownumFilter : Expression}
    {partitions orders : List Expression} {rows out : List (Env V)} :
    Returns I B pushed rows (.filter [rownumFilter] (.window windowTableIndex ["row_number"]
        partitions orders pushed)) out ↔
      ∃ arranged : List (Env V), arranged.Perm rows ∧ arranged.Pairwise (Precedes I orders) ∧
        out = ((ranked (fun row => values I row partitions) arranged).map
          (withRownum I B windowTableIndex)).filter
            fun row => ∀ e ∈ [rownumFilter], truthOf I row e = some true := by
  constructor
  · intro h
    cases h with
    | filter expressions hwindow =>
      cases hwindow with
      | rowNumber tableIndex partitions orders hinput hperm hsorted =>
        obtain rfl := hinput.eq_rows
        exact ⟨_, hperm, hsorted, rfl⟩
  · rintro ⟨arranged, hperm, hsorted, rfl⟩
    exact .filter _ (.rowNumber _ _ _ .input hperm hsorted)

omit [LinearOrder V] in
theorem lifted_withRownum (hindex : windowTableIndex ∉ allowedTables) (outer : Env V)
    (x : Env V × Nat) :
    Lifted I allowedTables lifted outer (withRownum I B windowTableIndex x) ↔
      Lifted I allowedTables lifted outer x.1 := by
  have hcombined : combined allowedTables outer (withRownum I B windowTableIndex x) =
      combined allowedTables outer x.1 := by
    funext b
    by_cases hb : b.tableIndex ∈ allowedTables
    · rw [combined, combined, if_pos hb, if_pos hb]
      refine Function.update_of_ne (fun heq => hindex ?_) _ _
      rw [heq] at hb
      exact hb
    · rw [combined, combined, if_neg hb, if_neg hb]
  rw [Lifted, Lifted, hcombined]

section Kept

variable {key : Env V → List (Option V)} {arranged : List (Env V)} {rownumFilter : Expression}
  (hindex : windowTableIndex ∉ allowedTables)
  (hcount : ∀ e ∈ limitCount, IsBigint I B e) (hoffset : ∀ e ∈ limitOffset, IsBigint I B e)
  (hfilter : buildDecorrelatedLimitRowNumberFilter limitCount limitOffset windowTableIndex =
    some rownumFilter)
include hcount hoffset hfilter

theorem mem_filter_rownum {x : Env V × Nat} (hx : x ∈ ranked key arranged) :
    (∀ e ∈ [rownumFilter], truthOf I (withRownum I B windowTableIndex x) e = some true) ↔
      ComparesRowNumbers I B limitCount limitOffset ∧
        WithinLimit (limitValue I B limitCount) (limitValue I B limitOffset) x.2 := by
  rw [List.forall_mem_singleton]
  exact truthOf_rownumFilter hcount hoffset hfilter (Function.update_self ..)
    (pos_of_mem_rankFrom hx)

variable (lifted key arranged) in
include hindex in
/-- The rows for one outer row, when every number is known. -/
theorem filter_lifted_of_compares (hknown : ComparesRowNumbers I B limitCount limitOffset)
    (outer : Env V) :
    ((((ranked key arranged).map (withRownum I B windowTableIndex)).filter
        fun row => ∀ e ∈ [rownumFilter], truthOf I row e = some true).filter
        fun row => Lifted I allowedTables lifted outer row).map
          (withoutRownum windowTableIndex) =
      (((((ranked key arranged).filter fun x =>
        WithinLimit (limitValue I B limitCount) (limitValue I B limitOffset) x.2).filter
        fun x => Lifted I allowedTables lifted outer x.1).map Prod.fst).map
          (withoutRownum windowTableIndex)) := by
  rw [List.filter_map, List.filter_map, List.map_map, List.map_map]
  have hrank : (ranked key arranged).filter ((fun row => decide (∀ e ∈ [rownumFilter],
      truthOf I row e = some true)) ∘ withRownum I B windowTableIndex) =
      (ranked key arranged).filter fun x =>
        WithinLimit (limitValue I B limitCount) (limitValue I B limitOffset) x.2 := by
    apply List.filter_congr
    intro x hx
    exact decide_eq_decide.2
      ((mem_filter_rownum hcount hoffset hfilter hx).trans (and_iff_right hknown))
  have hlifted : (fun row => decide (Lifted I allowedTables lifted outer row)) ∘
      withRownum I B windowTableIndex = fun x => decide (Lifted I allowedTables lifted outer x.1) :=
    funext fun x => decide_eq_decide.2 (lifted_withRownum hindex outer x)
  have hrow : withoutRownum windowTableIndex ∘ withRownum I B windowTableIndex =
      withoutRownum windowTableIndex ∘ Prod.fst :=
    funext fun x => Function.update_idem ..
  rw [hrank, hlifted, hrow]

/-- A number that is NULL or out of range leaves no row. -/
theorem filter_rownum_eq_nil (hunknown : ¬ComparesRowNumbers I B limitCount limitOffset) :
    (((ranked key arranged).map (withRownum I B windowTableIndex)).filter
        fun row => ∀ e ∈ [rownumFilter], truthOf I row e = some true) = [] := by
  rw [List.filter_map, List.map_eq_nil_iff, List.filter_eq_nil_iff]
  intro x hx hkept
  exact hunknown ((mem_filter_rownum hcount hoffset hfilter hx).1 (of_decide_eq_true hkept)).1

end Kept

end DecorrelatedLimit
end PgYaap
