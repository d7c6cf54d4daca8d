import PgYaap.SubqueryMeaning

/-! # Promoted subqueries keep their value

A subquery inside a larger expression becomes a column of a MARK or SINGLE join. On the rows
that come out of the joins the rewritten expression has the SQL value of the original one. -/
namespace PgYaap
namespace SubqueryJoins

open LogicalPlan ExpressionEvaluation ThreeValuedLogic

variable {Plan V : Type} {I : Interpretation V} {S : PlanMeaning Plan V}
variable {nextTableIndex : Nat} {subs : List (BoundSubqueryExpression Plan)}
variable {leftTables : Finset Nat} {outer row left : Env V}

/-! ## Rows that agree with the outer row -/

/-- `left` has every column that exists before WHERE is translated from `row`. -/
def Extends (S : PlanMeaning Plan V) (nextTableIndex : Nat)
    (subs : List (BoundSubqueryExpression Plan)) (row left : Env V) : Prop :=
  ∀ b, Outside S nextTableIndex subs b → left b = row b

/-- What `IndexedApart` says of one subquery among `subs`. -/
structure Placed (S : PlanMeaning Plan V) (nextTableIndex : Nat)
    (subs : List (BoundSubqueryExpression Plan)) (sub : BoundSubqueryExpression Plan) : Prop where
  tables : ∀ t ∈ S.outputTables sub.subqueryPlan, t < nextTableIndex
  plan : ∀ b ∈ S.columns sub.subqueryPlan, b.tableIndex ∉ S.outputTables sub.subqueryPlan →
    Outside S nextTableIndex subs b
  test : ∀ c ∈ subqueryConditions S.toPlanWalks sub, ∀ b ∈ c.bindings,
    b.tableIndex ∉ S.outputTables sub.subqueryPlan → Outside S nextTableIndex subs b

variable {sub : BoundSubqueryExpression Plan}

theorem Placed.rows_eq (hsub : Placed S nextTableIndex subs sub)
    (hleft : Extends S nextTableIndex subs row left) :
    S.rows sub.subqueryPlan left = S.rows sub.subqueryPlan row :=
  S.rows_congr _ _ _ fun b hb hout => hleft b (hsub.plan b hb hout)

theorem Placed.conditionsTruth_eq (hsub : Placed S nextTableIndex subs sub)
    (hleft : Extends S nextTableIndex subs row left) (r : Env V) :
    conditionsTruth I S sub.subqueryPlan left r (subqueryConditions S.toPlanWalks sub) =
      conditionsTruth I S sub.subqueryPlan row r (subqueryConditions S.toPlanWalks sub) := by
  apply congrArg allOf
  apply List.map_congr_left
  intro c hc
  apply congrArg I.truth
  apply value_congr
  intro b hb
  rw [PlanMeaning.beside, PlanMeaning.beside]
  by_cases hout : b.tableIndex ∈ S.outputTables sub.subqueryPlan
  · rw [if_pos hout, if_pos hout]
  · rw [if_neg hout, if_neg hout]
    exact hleft b (hsub.test c hc b hb hout)

theorem Placed.testTruths_eq (hsub : Placed S nextTableIndex subs sub)
    (hleft : Extends S nextTableIndex subs row left) :
    testTruths I S left sub = testTruths I S row sub := by
  rw [testTruths, testTruths, hsub.rows_eq hleft]
  exact List.map_congr_left fun r _ => hsub.conditionsTruth_eq hleft r

theorem Placed.subqueryValue_eq (hsub : Placed S nextTableIndex subs sub)
    (hleft : Extends S nextTableIndex subs row left) :
    subqueryValue I S left sub = subqueryValue I S row sub := by
  rw [subqueryValue, subqueryValue, hsub.testTruths_eq hleft, hsub.rows_eq hleft]

/-! ## The joins that are built -/

/-- The fields of a join that `BuildDependentJoin` sets, as far as its rows depend on them. -/
structure BuiltFor (W : PlanWalks Plan) (b : Builder Plan) (sub : BoundSubqueryExpression Plan)
    (negated : Bool) (join : LogicalJoin) : Prop where
  joinType : join.joinType = subqueryJoinType (subLinkName sub.sublinkType) negated
  dependent : join.dependent = !(W.correlatedColumns sub.subqueryPlan b.leftTables).isEmpty
  markIndex : join.joinType = .mark → join.markIndex = b.nextTableIndex
  convert : join.convertMarkToSemi = true
  invert : join.invertResult = negated
  conditions : join.conditions = subqueryConditions W sub

theorem dependentJoinFor_builtFor (W : PlanWalks Plan) (b : Builder Plan)
    (sub : BoundSubqueryExpression Plan) (negated : Bool) :
    BuiltFor W b sub negated (dependentJoinFor W b sub negated) :=
  ⟨rfl, rfl, fun h => if_pos h, rfl, rfl, rfl⟩

/-- Without correlated columns the right side reads nothing of the left row. -/
theorem rows_eq_of_uncorrelated {b : Builder Plan} (hne : leftTables.Nonempty)
    (hsub : leftTables ⊆ b.leftTables)
    (houter : ∀ c, c.tableIndex ∉ leftTables → outer c = row c)
    (h : (S.correlatedColumns sub.subqueryPlan b.leftTables).isEmpty = true) :
    S.rows sub.subqueryPlan outer = S.rows sub.subqueryPlan row := by
  apply S.rows_congr
  intro c hc _
  apply houter
  intro htable
  have hne : b.leftTables ≠ ∅ := (hne.mono hsub).ne_empty
  have hmem : c ∈ S.correlatedColumns sub.subqueryPlan b.leftTables :=
    List.mem_filter.2 ⟨hc, decide_eq_true (Or.inr (hsub htable))⟩
  rw [List.isEmpty_iff.1 h] at hmem
  exact absurd hmem List.not_mem_nil

theorem BuiltFor.joinTruths_eq {b : Builder Plan} {negated : Bool} {join : LogicalJoin}
    (hjoin : BuiltFor S.toPlanWalks b sub negated join) (hne : leftTables.Nonempty)
    (htables : leftTables ⊆ b.leftTables)
    (houter : ∀ c, c.tableIndex ∉ leftTables → outer c = row c)
    (hsub : Placed S nextTableIndex subs sub) (hleft : Extends S nextTableIndex subs row left) :
    joinTruths I S outer left join sub.subqueryPlan = testTruths I S row sub := by
  have hrows : rightRows S outer left join sub.subqueryPlan = S.rows sub.subqueryPlan row := by
    rw [rightRows, hjoin.dependent]
    cases hcorrelated : (S.correlatedColumns sub.subqueryPlan b.leftTables).isEmpty with
    | true => exact rows_eq_of_uncorrelated hne htables houter hcorrelated
    | false => exact hsub.rows_eq hleft
  rw [joinTruths, testTruths, hrows, hjoin.conditions]
  exact List.map_congr_left fun r _ => hsub.conditionsTruth_eq hleft r

theorem subqueryJoinType_zero (negated : Bool) :
    subqueryJoinType (subLinkName 0) negated = .mark := by
  rw [subqueryJoinType, subLinkName]
  simp

theorem subqueryJoinType_two (negated : Bool) :
    subqueryJoinType (subLinkName 2) negated = .mark := by
  rw [subqueryJoinType, subLinkName]
  simp

theorem subqueryJoinType_one (negated : Bool) :
    subqueryJoinType (subLinkName 1) negated = if negated then .semi else .anti := by
  rw [subqueryJoinType, subLinkName]
  simp

theorem subqueryJoinType_four (negated : Bool) :
    subqueryJoinType (subLinkName 4) negated = .single := by
  rw [subqueryJoinType, subLinkName]
  simp

/-- EXISTS has no test, so that every row of it satisfies the conditions. -/
theorem testTruths_exists (hkind : PredicateSubquery sub) (hzero : sub.sublinkType = 0)
    (outer : Env V) :
    testTruths I S outer sub = (S.rows sub.subqueryPlan outer).map fun _ => some true := by
  have hconditions : subqueryConditions S.toPlanWalks sub = [] := by
    rw [subqueryConditions, hkind.2 hzero]
  rw [testTruths, hconditions]
  rfl

theorem anyOf_map_const {α : Type} (l : List α) :
    anyOf (l.map fun _ => (some true : Truth)) = some !l.isEmpty := by
  cases l with
  | nil => rfl
  | cons a l => simp [anyOf]

/-! ## Promotion, one subquery at a time -/

/-- The state of the translation: the joins so far make the one row `left` of `row`. -/
structure Building (I : Interpretation V) (S : PlanMeaning Plan V) (nextTableIndex : Nat)
    (subs : List (BoundSubqueryExpression Plan)) (leftTables : Finset Nat) (outer row : Env V)
    (b : Builder Plan) (left : Env V) : Prop where
  leftTables : leftTables ⊆ b.leftTables
  next : nextTableIndex ≤ b.nextTableIndex
  rows : joinRows I S outer b.joins [row] = [left]
  extending : Extends S nextTableIndex subs row left

/-- A column that the joins of `these` subqueries add. -/
def Added (S : PlanMeaning Plan V) (these : List (BoundSubqueryExpression Plan)) (n n' : Nat)
    (c : ColumnBinding) : Prop :=
  (∃ s ∈ these, c.tableIndex ∈ S.outputTables s.subqueryPlan) ∨ n ≤ c.tableIndex ∧ c.tableIndex < n'

/-- One more join, that adds columns to the row. -/
theorem Building.push {b : Builder Plan} {join : LogicalJoin} {n' : Nat}
    (hb : Building I S nextTableIndex subs leftTables outer row b left)
    (htype : join.joinType = .mark ∨ join.joinType = .single)
    (hnext : b.nextTableIndex ≤ n')
    (hext : ∀ c, Outside S nextTableIndex subs c →
      extendRow I S outer left join sub.subqueryPlan c = left c) :
    Building I S nextTableIndex subs leftTables outer row
      (b.push S.toPlanWalks join sub.subqueryPlan n')
      (extendRow I S outer left join sub.subqueryPlan) := by
  refine ⟨hb.leftTables.trans Finset.subset_union_left, hb.next.trans hnext, ?_, ?_⟩
  · have hrow : joinRow I S outer left join sub.subqueryPlan =
        [extendRow I S outer left join sub.subqueryPlan] := by
      rw [joinRow]
      rcases htype with h | h
      · rw [h]
      · rw [h]
    rw [Builder.push, joinRows, List.foldl_append]
    have hrows := hb.rows
    rw [joinRows] at hrows
    rw [hrows, List.foldl_cons, List.foldl_nil, List.flatMap_singleton, hrow]
  · exact fun c hc => (hext c hc).trans (hb.extending c hc)

/-- What one promotion does to the state. -/
structure Grown (I : Interpretation V) (S : PlanMeaning Plan V) (nextTableIndex : Nat)
    (subs : List (BoundSubqueryExpression Plan)) (leftTables : Finset Nat) (outer row : Env V)
    (these : List (BoundSubqueryExpression Plan)) (b b' : Builder Plan) (left left' : Env V) :
    Prop where
  building : Building I S nextTableIndex subs leftTables outer row b' left'
  next : b.nextTableIndex ≤ b'.nextTableIndex
  frame : ∀ c, ¬ Added S these b.nextTableIndex b'.nextTableIndex c → left' c = left c

theorem Grown.refl {b : Builder Plan} {these : List (BoundSubqueryExpression Plan)}
    (hb : Building I S nextTableIndex subs leftTables outer row b left) :
    Grown I S nextTableIndex subs leftTables outer row these b b left left :=
  ⟨hb, le_rfl, fun _ _ => rfl⟩

/-- **EXISTS and ANY**: the marker of the MARK join is the SQL value of the subquery. -/
theorem grown_mark {b : Builder Plan} (hne : leftTables.Nonempty)
    (houter : ∀ c, c.tableIndex ∉ leftTables → outer c = row c)
    (hb : Building I S nextTableIndex subs leftTables outer row b left)
    (hsub : Placed S nextTableIndex subs sub) (hkind : PredicateSubquery sub)
    (htype : sub.sublinkType = 0 ∨ sub.sublinkType = 2) :
    ∃ left', Grown I S nextTableIndex subs leftTables outer row [sub] b
        (buildDependentJoin S.toPlanWalks b sub false) left left' ∧
      (buildDependentJoin S.toPlanWalks b sub false).nextTableIndex = b.nextTableIndex + 1 ∧
      left' ⟨b.nextTableIndex, 0⟩ = subqueryValue I S row sub := by
  have hmark : subqueryJoinType (subLinkName sub.sublinkType) false = .mark := by
    rcases htype with h | h
    · rw [h, subqueryJoinType_zero]
    · rw [h, subqueryJoinType_two]
  obtain ⟨join, hbuilt, hjoin⟩ : ∃ join, buildDependentJoin S.toPlanWalks b sub false =
      b.push S.toPlanWalks join sub.subqueryPlan (b.nextTableIndex + 1) ∧
      BuiltFor S.toPlanWalks b sub false join := by
    refine ⟨_, ?_, dependentJoinFor_builtFor S.toPlanWalks b sub false⟩
    rw [buildDependentJoin, if_pos]
    exact hmark
  have hjoinType : join.joinType = .mark := hjoin.joinType.trans hmark
  have hextend : extendRow I S outer left join sub.subqueryPlan =
      Function.update left ⟨b.nextTableIndex, 0⟩ (I.ofTruth (anyOf (testTruths I S row sub))) := by
    rw [extendRow, if_pos hjoinType, hjoin.markIndex hjoinType,
      hjoin.joinTruths_eq hne hb.leftTables houter hsub hb.extending]
  have hvalue : I.ofTruth (anyOf (testTruths I S row sub)) = subqueryValue I S row sub := by
    rw [subqueryValue]
    rcases htype with h | h
    · rw [if_pos h, testTruths_exists hkind h, anyOf_map_const]
    · rw [if_neg (by omega), if_neg (by omega), if_pos h]
  have hfresh : ∀ c, Outside S nextTableIndex subs c → c ≠ ⟨b.nextTableIndex, 0⟩ := by
    rintro c ⟨hlt, -⟩ rfl
    exact absurd hb.next (Nat.not_le.2 hlt)
  refine ⟨extendRow I S outer left join sub.subqueryPlan, ⟨?_, ?_, ?_⟩, by rw [hbuilt]; rfl, ?_⟩
  · rw [hbuilt]
    refine hb.push (Or.inl hjoinType) (Nat.le_succ _) fun c hc => ?_
    rw [hextend, Function.update_of_ne (hfresh c hc)]
  · rw [hbuilt]
    exact Nat.le_succ _
  · intro c hc
    rw [hbuilt] at hc
    rw [hextend, Function.update_of_ne]
    rintro rfl
    exact hc (Or.inr ⟨le_rfl, Nat.lt_succ_self _⟩)
  · rw [hextend, Function.update_self, hvalue]

/-- **A scalar subquery**: the column of the SINGLE join is its value. -/
theorem grown_single {b : Builder Plan} {output : ColumnBinding}
    (hb : Building I S nextTableIndex subs leftTables outer row b left)
    (hsub : Placed S nextTableIndex subs sub) (hmem : sub ∈ subs)
    (htype : sub.sublinkType = 4)
    (houtput : S.producedOutputs sub.subqueryPlan = [output]) :
    ∃ left', Grown I S nextTableIndex subs leftTables outer row [sub] b
        (buildSingleJoin S.toPlanWalks b sub.subqueryPlan) left left' ∧
      left' output = subqueryValue I S row sub := by
  have htable : output.tableIndex ∈ S.outputTables sub.subqueryPlan :=
    S.mem_outputTables _ output (by rw [houtput]; exact List.mem_singleton_self _)
  obtain ⟨join, hbuilt, hjoinType, hdependent, hconditions⟩ : ∃ join : LogicalJoin,
      buildSingleJoin S.toPlanWalks b sub.subqueryPlan =
        b.push S.toPlanWalks join sub.subqueryPlan b.nextTableIndex ∧
      join.joinType = .single ∧ join.dependent = true ∧ join.conditions = [] :=
    ⟨_, rfl, rfl, rfl, rfl⟩
  have hrows : rightRows S outer left join sub.subqueryPlan = S.rows sub.subqueryPlan row := by
    rw [rightRows, hdependent, if_pos rfl, hsub.rows_eq hb.extending]
  have hextend : extendRow I S outer left join sub.subqueryPlan =
      S.beside sub.subqueryPlan left ((S.rows sub.subqueryPlan row).head?.getD fun _ => none) := by
    have hall : ∀ r ∈ S.rows sub.subqueryPlan row,
        decide (conditionsTruth I S sub.subqueryPlan left r join.conditions = some true) = true := by
      intro r _
      rw [hconditions]
      exact decide_eq_true rfl
    rw [extendRow, if_neg (by rw [hjoinType]; nofun), hrows, List.filter_eq_self.2 hall]
    cases S.rows sub.subqueryPlan row with
    | nil => rfl
    | cons r rs => rfl
  have houtside : ∀ c, c.tableIndex ∉ S.outputTables sub.subqueryPlan →
      extendRow I S outer left join sub.subqueryPlan c = left c := by
    intro c hc
    rw [hextend]
    exact if_neg hc
  refine ⟨extendRow I S outer left join sub.subqueryPlan, ⟨?_, ?_, ?_⟩, ?_⟩
  · rw [hbuilt]
    exact hb.push (Or.inr hjoinType) le_rfl fun c hc => houtside c (hc.2 sub hmem)
  · rw [hbuilt]
    exact le_rfl
  · intro c hc
    refine houtside c fun hin => hc (Or.inl ⟨sub, List.mem_singleton_self _, hin⟩)
  · rw [hextend, subqueryValue, if_neg (by omega), if_neg (by omega), if_neg (by omega),
      if_pos htype, houtput]
    cases S.rows sub.subqueryPlan row with
    | nil => exact if_pos htable
    | cons r rs => exact if_pos htable

/-! ## Promotion of a whole expression -/

/-- What is known of the subqueries and columns of a part of the conjunct. -/
structure Part (S : PlanMeaning Plan V) (nextTableIndex : Nat)
    (subs these : List (BoundSubqueryExpression Plan)) (columns : List ColumnBinding) : Prop where
  mem : ∀ s ∈ these, s ∈ subs
  placed : ∀ s ∈ these, Placed S nextTableIndex subs s
  kinds : ∀ s ∈ these, PredicateSubquery s
  apart : these.Pairwise fun s t =>
    Disjoint (S.outputTables s.subqueryPlan) (S.outputTables t.subqueryPlan)
  columns : ∀ b ∈ columns, Outside S nextTableIndex subs b

theorem Part.first {these those : List (BoundSubqueryExpression Plan)}
    {columns columns' : List ColumnBinding}
    (h : Part S nextTableIndex subs (these ++ those) (columns ++ columns')) :
    Part S nextTableIndex subs these columns :=
  ⟨fun s hs => h.mem s (List.mem_append_left _ hs),
    fun s hs => h.placed s (List.mem_append_left _ hs),
    fun s hs => h.kinds s (List.mem_append_left _ hs), (List.pairwise_append.1 h.apart).1,
    fun b hb => h.columns b (List.mem_append_left _ hb)⟩

theorem Part.rest {these those : List (BoundSubqueryExpression Plan)}
    {columns columns' : List ColumnBinding}
    (h : Part S nextTableIndex subs (these ++ those) (columns ++ columns')) :
    Part S nextTableIndex subs those columns' :=
  ⟨fun s hs => h.mem s (List.mem_append_right _ hs),
    fun s hs => h.placed s (List.mem_append_right _ hs),
    fun s hs => h.kinds s (List.mem_append_right _ hs), (List.pairwise_append.1 h.apart).2.1,
    fun b hb => h.columns b (List.mem_append_right _ hb)⟩

mutual

/-- **The rewritten expression has the SQL value**, on every row that has the columns the
new joins add. -/
theorem promoteScalarSubqueryExpression_value (hne : leftTables.Nonempty)
    (houter : ∀ c, c.tableIndex ∉ leftTables → outer c = row c) (e : WhereExpression Plan)
    (b : Builder Plan) (left : Env V)
    (hb : Building I S nextTableIndex subs leftTables outer row b left)
    (he : Part S nextTableIndex subs (subqueriesIn e) (columnsIn e)) :
    ∃ left', Grown I S nextTableIndex subs leftTables outer row (subqueriesIn e) b
        (promoteScalarSubqueryExpression S.toPlanWalks b e).2 left left' ∧
      ∀ out, Extends S nextTableIndex subs row out →
        (∀ c, Added S (subqueriesIn e) b.nextTableIndex
          (promoteScalarSubqueryExpression S.toPlanWalks b e).2.nextTableIndex c →
            out c = left' c) →
        sqlValue I S out (promoteScalarSubqueryExpression S.toPlanWalks b e).1 =
          sqlValue I S row e := by
  cases e with
  | function functionName opOid children =>
    obtain ⟨left', hgrown, hvalue⟩ :=
      promoteScalarSubqueryExpressions_values hne houter children b left hb he
    refine ⟨left', hgrown, fun out hout hadded => ?_⟩
    exact congrArg (functionValue I functionName opOid) (hvalue out hout hadded)
  | aggregate functionName aggOid isDistinct children =>
    obtain ⟨left', hgrown, hvalue⟩ :=
      promoteScalarSubqueryExpressions_values hne houter children b left hb he
    refine ⟨left', hgrown, fun out hout hadded => ?_⟩
    exact congrArg (I.aggregate functionName aggOid isDistinct) (hvalue out hout hadded)
  | conjunction boolExprType children =>
    obtain ⟨left', hgrown, hvalue⟩ :=
      promoteScalarSubqueryExpressions_values hne houter children b left hb he
    refine ⟨left', hgrown, fun out hout hadded => ?_⟩
    exact congrArg (fun vs => I.ofTruth (connective boolExprType (vs.map I.truth)))
      (hvalue out hout hadded)
  | subquery sub =>
    have hmem : sub ∈ subqueriesIn (.subquery sub) := List.mem_singleton_self _
    have hsub := he.placed sub hmem
    have hkind := he.kinds sub hmem
    rw [promoteScalarSubqueryExpression]
    by_cases hmark : sub.sublinkType = 0 ∨ sub.sublinkType = 2
    · obtain ⟨left', hgrown, hnext, hvalue⟩ := grown_mark hne houter hb hsub hkind hmark
      rw [if_pos (hmark.elim Or.inl fun h => Or.inr (Or.inl h))]
      refine ⟨left', hgrown, fun out hout hadded => ?_⟩
      rw [sqlValue, sqlValue, ← hvalue]
      refine hadded _ (Or.inr ⟨le_rfl, ?_⟩)
      rw [hnext]
      exact Nat.lt_succ_self _
    · obtain ⟨hkinds, -⟩ := hkind
      rw [if_neg (by omega)]
      by_cases hscalar : sub.sublinkType = 4
      · rw [if_neg (by omega)]
        split
        next output houtput =>
          obtain ⟨left', hgrown, hvalue⟩ := grown_single hb hsub (he.mem sub hmem) hscalar houtput
          refine ⟨left', hgrown, fun out hout hadded => ?_⟩
          rw [sqlValue, sqlValue, ← hvalue]
          refine hadded output (Or.inl ⟨sub, hmem, S.mem_outputTables _ output ?_⟩)
          rw [houtput]
          exact List.mem_singleton_self _
        next => exact ⟨left, Grown.refl hb, fun out hout _ => hsub.subqueryValue_eq hout⟩
      · rw [if_pos (by omega)]
        exact ⟨left, Grown.refl hb, fun out hout _ => hsub.subqueryValue_eq hout⟩
  | columnRef binding =>
    exact ⟨left, Grown.refl hb, fun out hout _ =>
      hout binding (he.columns binding (List.mem_singleton_self _))⟩
  | constant v isNull => exact ⟨left, Grown.refl hb, fun _ _ _ => rfl⟩

theorem promoteScalarSubqueryExpressions_values (hne : leftTables.Nonempty)
    (houter : ∀ c, c.tableIndex ∉ leftTables → outer c = row c)
    (es : List (WhereExpression Plan)) (b : Builder Plan) (left : Env V)
    (hb : Building I S nextTableIndex subs leftTables outer row b left)
    (he : Part S nextTableIndex subs (subqueriesInList es) (columnsInList es)) :
    ∃ left', Grown I S nextTableIndex subs leftTables outer row (subqueriesInList es) b
        (promoteScalarSubqueryExpressions S.toPlanWalks b es).2 left left' ∧
      ∀ out, Extends S nextTableIndex subs row out →
        (∀ c, Added S (subqueriesInList es) b.nextTableIndex
          (promoteScalarSubqueryExpressions S.toPlanWalks b es).2.nextTableIndex c →
            out c = left' c) →
        sqlValues I S out (promoteScalarSubqueryExpressions S.toPlanWalks b es).1 =
          sqlValues I S row es := by
  cases es with
  | nil => exact ⟨left, Grown.refl hb, fun _ _ _ => rfl⟩
  | cons e es =>
    obtain ⟨mid, hmid, hfirst⟩ :=
      promoteScalarSubqueryExpression_value hne houter e b left hb he.first
    obtain ⟨left', hgrown, hrest⟩ := promoteScalarSubqueryExpressions_values hne houter es
      (promoteScalarSubqueryExpression S.toPlanWalks b e).2 mid hmid.building he.rest
    rw [promoteScalarSubqueryExpressions]
    -- the columns of the first part stay as the joins of the rest are added
    have hstays : ∀ c, Added S (subqueriesIn e) b.nextTableIndex
        (promoteScalarSubqueryExpression S.toPlanWalks b e).2.nextTableIndex c →
        left' c = mid c := by
      intro c hc
      apply hgrown.frame
      rintro (⟨t, ht, hct⟩ | ⟨hle, hlt⟩)
      · rcases hc with ⟨s, hs, hcs⟩ | ⟨hle, -⟩
        · exact Finset.disjoint_left.1 ((List.pairwise_append.1 he.apart).2.2 s hs t ht) hcs hct
        · exact absurd ((he.rest.placed t ht).tables _ hct)
            (Nat.not_lt.2 (hb.next.trans hle))
      · rcases hc with ⟨s, hs, hcs⟩ | ⟨-, hlt'⟩
        · exact absurd ((he.first.placed s hs).tables _ hcs)
            (Nat.not_lt.2 (hmid.building.next.trans hle))
        · omega
    refine ⟨left', ⟨hgrown.building, hmid.next.trans hgrown.next, ?_⟩, ?_⟩
    · intro c hc
      rw [hgrown.frame c, hmid.frame c]
      · rintro (⟨s, hs, hcs⟩ | ⟨hle, hlt⟩)
        · exact hc (Or.inl ⟨s, List.mem_append_left _ hs, hcs⟩)
        · exact hc (Or.inr ⟨hle, hlt.trans_le hgrown.next⟩)
      · rintro (⟨s, hs, hcs⟩ | ⟨hle, hlt⟩)
        · exact hc (Or.inl ⟨s, List.mem_append_right _ hs, hcs⟩)
        · exact hc (Or.inr ⟨hmid.next.trans hle, hlt⟩)
    · intro out hout hadded
      have hhead := hfirst out hout fun c hc => by
        rw [← hstays c hc]
        refine hadded c ?_
        rcases hc with ⟨s, hs, hcs⟩ | ⟨hle, hlt⟩
        · exact Or.inl ⟨s, List.mem_append_left _ hs, hcs⟩
        · exact Or.inr ⟨hle, hlt.trans_le hgrown.next⟩
      have htail := hrest out hout fun c hc => by
        refine hadded c ?_
        rcases hc with ⟨s, hs, hcs⟩ | ⟨hle, hlt⟩
        · exact Or.inl ⟨s, List.mem_append_right _ hs, hcs⟩
        · exact Or.inr ⟨hmid.next.trans hle, hlt⟩
      rw [sqlValues, sqlValues, hhead, htail]

end

end SubqueryJoins
end PgYaap
