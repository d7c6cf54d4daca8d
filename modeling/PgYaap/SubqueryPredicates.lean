import PgYaap.SubqueryPromotion

/-! # When a conjunct of WHERE keeps the right rows

A subquery inside a larger expression is always right. A subquery that is a conjunct of its
own, or its negation, is right for EXISTS; for the other kinds the join type and the
polarity decide on which rows. -/
namespace PgYaap
namespace SubqueryJoins

open LogicalPlan ExpressionEvaluation ThreeValuedLogic

variable {Plan V : Type} {I : Interpretation V} {S : PlanMeaning Plan V}
variable {nextTableIndex : Nat} {leftTables : Finset Nat} {outer row : Env V}
variable {sub : BoundSubqueryExpression Plan}

/-- The test compares nothing of the outer row with nothing of the subquery, so that
`SimplifyExistsStyleMarkJoin` leaves the MARK join as it is. -/
def OneSided (W : PlanWalks Plan) (leftTables : Finset Nat) (sub : BoundSubqueryExpression Plan) :
    Prop :=
  ∃ c ∈ subqueryConditions W sub, c.referencedTables = ∅ ∨ c.referencedTables ⊆ leftTables ∨
    c.referencedTables ⊆ W.outputTables sub.subqueryPlan

/-- On which outer rows the join of a conjunct `sub` or `NOT sub` is right.

* ALL is built as an anti join on its test, its negation as a semi join.
* ANY is a semi join, its negation an anti join, unless the test is one-sided: then the
  MARK join keeps every row.
* A scalar subquery keeps every row. -/
def KeptRightly (I : Interpretation V) (S : PlanMeaning Plan V) (leftTables : Finset Nat)
    (row : Env V) (sub : BoundSubqueryExpression Plan) (negated : Bool) : Prop :=
  let truths := testTruths I S row sub
  if sub.sublinkType = 0 then True
  else if sub.sublinkType = 1 then
    if negated then some true ∈ truths ↔ some false ∈ truths
    else truths = [] ∨ some true ∈ truths ∧ ∃ t ∈ truths, t ≠ some true
  else if sub.sublinkType = 2 then
    (OneSided S.toPlanWalks leftTables sub →
      if negated then ∀ t ∈ truths, t = some false else some true ∈ truths) ∧
    (¬ OneSided S.toPlanWalks leftTables sub → negated = true →
      some true ∈ truths ∨ none ∉ truths)
  else I.truth (subqueryValue I S row sub) = some !negated

/-! ## Conjuncts of their own -/

theorem extractTopLevelSubquery_eq_some {e : WhereExpression Plan}
    (h : extractTopLevelSubquery e = some sub) :
    e = .subquery sub ∧ isNotConjunction e = false ∨
      e = .conjunction 2 [.subquery sub] ∧ isNotConjunction e = true := by
  rw [extractTopLevelSubquery.eq_def] at h
  split at h
  next s =>
    cases h
    exact Or.inl ⟨rfl, rfl⟩
  next boolExprType s =>
    split at h
    next htwo =>
      cases h
      subst htwo
      exact Or.inr ⟨rfl, rfl⟩
    next => cases h
  next => cases h

/-- The truth of the conjunct is that of its subquery. -/
theorem truth_sqlValue_topLevel {e : WhereExpression Plan}
    (h : extractTopLevelSubquery e = some sub) :
    I.truth (sqlValue I S row e) = some true ↔
      I.truth (subqueryValue I S row sub) = some !isNotConjunction e := by
  rcases extractTopLevelSubquery_eq_some h with ⟨rfl, hnot⟩ | ⟨rfl, hnot⟩
  · rw [hnot]
    exact Iff.rfl
  · rw [hnot, sqlValue, I.truth_ofTruth]
    exact negate_eq_true

/-- The join of a conjunct of its own, as the later passes read it. -/
theorem joinTruths_simplify (join : LogicalJoin) (rightTables : Finset Nat)
    (plan : Plan) :
    joinTruths I S outer row (simplifyExistsStyleMarkJoin leftTables rightTables join) plan =
      joinTruths I S outer row join plan := by
  rw [simplifyExistsStyleMarkJoin]
  split
  · split
    · rfl
    · rfl
  · rfl

theorem simplify_joinType_of_ne (leftTables rightTables : Finset Nat) (join : LogicalJoin)
    (h : join.joinType ≠ .mark) :
    (simplifyExistsStyleMarkJoin leftTables rightTables join).joinType = join.joinType := by
  rw [simplifyExistsStyleMarkJoin, if_neg fun hmark => h hmark.1]

theorem simplify_joinType_of_mark (leftTables : Finset Nat) {b : Builder Plan} {negated : Bool} {join : LogicalJoin}
    (hjoin : BuiltFor S.toPlanWalks b sub negated join) (hmark : join.joinType = .mark) :
    (OneSided S.toPlanWalks leftTables sub ∧
      (simplifyExistsStyleMarkJoin leftTables (S.outputTables sub.subqueryPlan) join).joinType =
        .mark) ∨
    (¬ OneSided S.toPlanWalks leftTables sub ∧
      (simplifyExistsStyleMarkJoin leftTables (S.outputTables sub.subqueryPlan) join).joinType =
        if negated then .anti else .semi) := by
  rw [simplifyExistsStyleMarkJoin, if_pos ⟨hmark, hjoin.convert⟩, hjoin.conditions]
  by_cases hsided : OneSided S.toPlanWalks leftTables sub
  · refine Or.inl ⟨hsided, ?_⟩
    rw [OneSided] at hsided
    rw [if_pos hsided]
    exact hmark
  · refine Or.inr ⟨hsided, ?_⟩
    rw [OneSided] at hsided
    rw [if_neg hsided]
    exact congrArg (fun b => if b then JoinType.anti else JoinType.semi) hjoin.invert

/-- **A conjunct of its own** keeps a row when the join, simplified, has an output row. -/
theorem keepsRow_topLevel (hne : leftTables.Nonempty)
    (houter : ∀ c, c.tableIndex ∉ leftTables → outer c = row c) {e : WhereExpression Plan}
    (h : extractTopLevelSubquery e = some sub) (hsub : Placed S nextTableIndex [sub] sub) :
    ∃ join, BuiltFor S.toPlanWalks ⟨leftTables, nextTableIndex, []⟩ sub (isNotConjunction e) join ∧
      joinTruths I S outer row
        (simplifyExistsStyleMarkJoin leftTables (S.outputTables sub.subqueryPlan) join)
        sub.subqueryPlan = testTruths I S row sub ∧
      (KeepsRow I S leftTables nextTableIndex outer row e ↔ joinRow I S outer row
        (simplifyExistsStyleMarkJoin leftTables (S.outputTables sub.subqueryPlan) join)
        sub.subqueryPlan ≠ []) := by
  have hjoin := dependentJoinFor_builtFor S.toPlanWalks ⟨leftTables, nextTableIndex, []⟩ sub
    (isNotConjunction e)
  refine ⟨_, hjoin, ?_, ?_⟩
  · rw [joinTruths_simplify]
    exact hjoin.joinTruths_eq hne (Finset.Subset.refl _) houter hsub fun _ _ => rfl
  · rw [KeepsRow, translateWhereConjunct, h]
    simp only [buildDependentJoin, Builder.push, List.nil_append, List.map_cons, List.map_nil,
      joinRows, List.foldl_cons, List.foldl_nil, List.flatMap_singleton]

theorem joinRow_semi {join : LogicalJoin} {plan : Plan} (h : join.joinType = .semi) :
    joinRow I S outer row join plan ≠ [] ↔ some true ∈ joinTruths I S outer row join plan := by
  rw [joinRow, h]
  by_cases htrue : some true ∈ joinTruths I S outer row join plan
  · simp [htrue]
  · simp [htrue]

theorem joinRow_anti {join : LogicalJoin} {plan : Plan} (h : join.joinType = .anti) :
    joinRow I S outer row join plan ≠ [] ↔ some true ∉ joinTruths I S outer row join plan := by
  rw [joinRow, h]
  by_cases htrue : some true ∈ joinTruths I S outer row join plan
  · simp [htrue]
  · simp [htrue]

theorem joinRow_mark (I : Interpretation V) (S : PlanMeaning Plan V) (outer row : Env V)
    {join : LogicalJoin} (plan : Plan) (h : join.joinType = .mark ∨ join.joinType = .single) :
    joinRow I S outer row join plan ≠ [] := by
  rw [joinRow]
  rcases h with h | h
  · simp [h]
  · simp [h]

/-- The four kinds, from the truths of the test. -/
theorem truth_subqueryValue_one (h : sub.sublinkType = 1) (b : Bool) :
    I.truth (subqueryValue I S row sub) = some b ↔ allOf (testTruths I S row sub) = some b := by
  rw [subqueryValue, if_neg (by omega), if_pos h, I.truth_ofTruth]

theorem truth_subqueryValue_two (h : sub.sublinkType = 2) (b : Bool) :
    I.truth (subqueryValue I S row sub) = some b ↔ anyOf (testTruths I S row sub) = some b := by
  rw [subqueryValue, if_neg (by omega), if_neg (by omega), if_pos h, I.truth_ofTruth]

theorem truth_subqueryValue_zero (hkind : PredicateSubquery sub) (h : sub.sublinkType = 0)
    (b : Bool) :
    I.truth (subqueryValue I S row sub) = some b ↔ decide (some true ∈ testTruths I S row sub) = b := by
  rw [subqueryValue, if_pos h, I.truth_ofTruth, testTruths_exists hkind h]
  cases S.rows sub.subqueryPlan row with
  | nil => simp [eq_comm]
  | cons r rs => simp [eq_comm]

/-! ## The exact condition -/

/-- A subquery on its own in `subs` is placed. -/
theorem IndexedApart.placed {e : WhereExpression Plan} (h : IndexedApart S nextTableIndex e) :
    ∀ s ∈ subqueriesIn e, Placed S nextTableIndex (subqueriesIn e) s :=
  fun s hs => ⟨h.tables s hs, h.plans s hs, h.tests s hs⟩

/-- An anti join on the test keeps the rows of `ALL` only where some but not all tests are
true, or there is no row to test. -/
theorem not_mem_iff_allOf {ts : List Truth} :
    (some true ∉ ts ↔ allOf ts = some true) ↔
      (ts = [] ∨ some true ∈ ts ∧ ∃ t ∈ ts, t ≠ some true) := by
  rw [allOf_eq_true]
  by_cases hnil : ts = []
  · subst hnil
    simp
  · obtain ⟨t, ht⟩ := List.exists_mem_of_ne_nil ts hnil
    by_cases htrue : some true ∈ ts
    · simp [htrue, hnil]
    · have hnot : ¬ ∀ t ∈ ts, t = some true := fun hall => htrue (hall t ht ▸ ht)
      simp [htrue, hnil, hnot]

/-- An anti join on the test keeps the rows of `NOT ANY` unless all that keeps the negation
from being true is an unknown. -/
theorem not_mem_iff_anyOf {ts : List Truth} :
    (some true ∉ ts ↔ anyOf ts = some false) ↔ (some true ∈ ts ∨ none ∉ ts) := by
  rw [anyOf_eq_false]
  by_cases htrue : some true ∈ ts
  · have hnot : ¬ ∀ t ∈ ts, t = some false := fun hall => absurd (hall _ htrue) (by simp)
    simp [htrue, hnot]
  · by_cases hnone : none ∈ ts
    · have hnot : ¬ ∀ t ∈ ts, t = some false := fun hall => absurd (hall _ hnone) (by simp)
      simp [htrue, hnone, hnot]
    · have hall : ∀ t ∈ ts, t = some false := by
        intro t ht
        match t with
        | some false => rfl
        | some true => exact absurd ht htrue
        | none => exact absurd ht hnone
      simp only [htrue, hnone, not_false_eq_true, or_true, iff_true]
      exact iff_of_true trivial hall

theorem keepsRow_topLevel_iff (hne : leftTables.Nonempty)
    (houter : ∀ c, c.tableIndex ∉ leftTables → outer c = row c) {e : WhereExpression Plan}
    (h : extractTopLevelSubquery e = some sub) (hsub : Placed S nextTableIndex [sub] sub)
    (hkind : PredicateSubquery sub) :
    (KeepsRow I S leftTables nextTableIndex outer row e ↔
        I.truth (subqueryValue I S row sub) = some !isNotConjunction e) ↔
      KeptRightly I S leftTables row sub (isNotConjunction e) := by
  obtain ⟨join, hjoin, htruths, hkeeps⟩ :=
    keepsRow_topLevel (I := I) hne houter h hsub
  rw [hkeeps]
  generalize isNotConjunction e = negated at hjoin
  have htype := hjoin.joinType
  have hmarked := simplify_joinType_of_mark leftTables hjoin
  have hplain := simplify_joinType_of_ne leftTables (S.outputTables sub.subqueryPlan) join
  generalize simplifyExistsStyleMarkJoin leftTables (S.outputTables sub.subqueryPlan)
    join = final at *
  rw [KeptRightly]
  rcases hkind.1 with hzero | hone | htwo | hfour
  · -- EXISTS has no condition, so it is never one-sided
    rw [if_pos hzero, iff_true, truth_subqueryValue_zero hkind hzero]
    rw [hzero, subqueryJoinType_zero] at htype
    rcases hmarked htype with ⟨⟨c, hc, -⟩, -⟩ | ⟨-, hfinal⟩
    · rw [subqueryConditions, hkind.2 hzero] at hc
      exact absurd hc List.not_mem_nil
    · cases negated with
      | false => rw [joinRow_semi hfinal, htruths]; simp
      | true => rw [joinRow_anti hfinal, htruths]; simp
  · rw [if_neg (by omega), if_pos hone, truth_subqueryValue_one hone]
    rw [hone, subqueryJoinType_one] at htype
    cases negated with
    | false =>
      rw [joinRow_anti ((hplain (by rw [htype]; simp)).trans htype), htruths]
      exact not_mem_iff_allOf
    | true =>
      rw [joinRow_semi ((hplain (by rw [htype]; simp)).trans htype), htruths]
      exact iff_congr Iff.rfl allOf_eq_false
  · rw [if_neg (by omega), if_neg (by omega), if_pos htwo, truth_subqueryValue_two htwo]
    rw [htwo, subqueryJoinType_two] at htype
    rcases hmarked htype with ⟨hsided, hfinal⟩ | ⟨hsided, hfinal⟩
    · have hkept := joinRow_mark I S outer row sub.subqueryPlan (Or.inl hfinal)
      simp only [hsided, not_true, forall_const, false_implies, and_true]
      rw [iff_true_left hkept]
      cases negated with
      | false => exact anyOf_eq_true
      | true => exact anyOf_eq_false
    · simp only [hsided, not_false_eq_true, forall_const, false_implies, true_and]
      cases negated with
      | false =>
        rw [joinRow_semi hfinal, htruths]
        simp [anyOf_eq_true]
      | true =>
        rw [joinRow_anti hfinal, htruths]
        simpa using not_mem_iff_anyOf
  · rw [if_neg (by omega), if_neg (by omega), if_neg (by omega)]
    rw [hfour, subqueryJoinType_four] at htype
    have hkept := joinRow_mark I S outer row sub.subqueryPlan
      (Or.inr ((hplain (by rw [htype]; simp)).trans htype))
    simp [hkept]

/-- The condition of a whole conjunct: nothing, unless it is a subquery or its negation. -/
def ConjunctKeptRightly (I : Interpretation V) (S : PlanMeaning Plan V) (leftTables : Finset Nat)
    (row : Env V) (e : WhereExpression Plan) : Prop :=
  ∀ sub, extractTopLevelSubquery e = some sub →
    KeptRightly I S leftTables row sub (isNotConjunction e)

/-- **A conjunct of WHERE keeps exactly the rows on which it is true** if and only if the
join of its subquery is right on them. -/
theorem translateWhereConjunct_keeps_iff (I : Interpretation V) (S : PlanMeaning Plan V)
    (hne : leftTables.Nonempty) (houter : ∀ c, c.tableIndex ∉ leftTables → outer c = row c)
    (e : WhereExpression Plan) (hkinds : ∀ s ∈ subqueriesIn e, PredicateSubquery s)
    (hindexes : IndexedApart S nextTableIndex e) :
    (KeepsRow I S leftTables nextTableIndex outer row e ↔
        I.truth (sqlValue I S row e) = some true) ↔
      ConjunctKeptRightly I S leftTables row e := by
  have hplaced := hindexes.placed
  cases h : extractTopLevelSubquery e with
  | some sub =>
    rw [ConjunctKeptRightly, truth_sqlValue_topLevel h]
    have hsubs : subqueriesIn e = [sub] := by
      rcases extractTopLevelSubquery_eq_some h with ⟨rfl, -⟩ | ⟨rfl, -⟩
      · rfl
      · rfl
    rw [hsubs] at hkinds hplaced
    simp only [h, Option.some.injEq, forall_eq']
    exact keepsRow_topLevel_iff hne houter h (hplaced sub (List.mem_singleton_self _))
      (hkinds sub (List.mem_singleton_self _))
  | none =>
    have hright : ConjunctKeptRightly I S leftTables row e := by
      intro sub hsub
      rw [h] at hsub
      cases hsub
    refine iff_of_true ?_ hright
    have hstart : Building I S nextTableIndex (subqueriesIn e) leftTables outer row
        ⟨leftTables, nextTableIndex, []⟩ row :=
      ⟨Finset.Subset.refl _, le_rfl, rfl, fun _ _ => rfl⟩
    obtain ⟨left', hgrown, hvalue⟩ := promoteScalarSubqueryExpression_value hne houter e _ row
      hstart ⟨fun _ hs => hs, hplaced, hkinds, hindexes.apart, hindexes.columns⟩
    have hrows := hgrown.building.rows
    rw [KeepsRow, translateWhereConjunct, h]
    simp only [hrows, List.mem_singleton, exists_eq_left]
    rw [hvalue left' hgrown.building.extending fun _ _ => rfl]

/-! ## An instance -/

/-- Integers, with `=`; TRUE is 1. -/
def integers : Interpretation Int where
  constant _ := none
  function functionName _ args :=
    match functionName, args with
    | "=", [some a, some b] => some (if a = b then 1 else 0)
    | _, _ => none
  aggregate _ _ _ _ := none
  subquery _ _ _ := none
  ofTruth := Option.map fun b => if b then 1 else 0
  truth := Option.map fun n => n ≠ 0
  truth_ofTruth t := by
    cases t with
    | none => rfl
    | some b => cases b <;> rfl

/-- A subquery without correlation whose one row has the column 5. -/
def oneFive : PlanMeaning Unit Int where
  producedOutputs _ := [⟨1, 0⟩]
  outputTables _ := {1}
  columns _ := []
  rows _ _ := [fun _ => some 5]
  rows_congr _ _ _ _ := rfl
  mem_outputTables _ b hb := by
    rw [List.mem_singleton.1 hb]
    exact Finset.mem_singleton_self _

/-- `x = ALL (SELECT 5)`. -/
def equalsAll : WhereExpression Unit :=
  .subquery ⟨1, (), [.function "=" 96 [.columnRef ⟨0, 0⟩, .constant "param$1" false]]⟩

/-- The outer row with `x = 5`. -/
def outerFive : Env Int := fun b => if b = ⟨0, 0⟩ then some 5 else none

theorem translateWhereConjunct_keeps_iff_equalsAll :
    (KeepsRow integers oneFive {0} 2 (fun _ => none) outerFive equalsAll ↔
        integers.truth (sqlValue integers oneFive outerFive equalsAll) = some true) ↔
      ConjunctKeptRightly integers oneFive {0} outerFive equalsAll := by
  refine translateWhereConjunct_keeps_iff integers oneFive (Finset.singleton_nonempty 0) ?_
    equalsAll ?_ ?_
  · intro c hc
    rw [outerFive, if_neg]
    rintro rfl
    exact hc (Finset.mem_singleton_self _)
  · intro s hs
    rw [List.mem_singleton.1 hs]
    exact ⟨Or.inr (Or.inl rfl), fun h => absurd h (by decide)⟩
  · refine ⟨List.pairwise_singleton _ _, ?_, ?_, ?_, ?_⟩
    · intro s _ t ht
      rw [Finset.mem_singleton.1 ht]
      exact Nat.one_lt_two
    · intro s _ b hb
      exact absurd hb List.not_mem_nil
    · intro s hs c hc b hb hout
      rw [List.mem_singleton.1 hs] at hc hout
      rw [List.mem_singleton.1 hc] at hb
      have hcolumn : b = ⟨0, 0⟩ ∨ b = ⟨1, 0⟩ := by
        simpa [subqueryConditions, rewriteSubqueryParams, rewriteSubqueryParamsList, oneFive,
          Expression.bindings, Expression.bindingsList] using hb
      rcases hcolumn with rfl | rfl
      · exact ⟨Nat.two_pos, fun s _ hmem => absurd (Finset.mem_singleton.1 hmem) (by decide)⟩
      · exact absurd (Finset.mem_singleton_self _) hout
    · intro b hb
      exact absurd hb List.not_mem_nil

/-- `5 = ALL (SELECT 5)` is true, and its anti join drops the row. -/
theorem not_translateWhereConjunct_keeps :
    ¬ (KeepsRow integers oneFive {0} 2 (fun _ => none) outerFive equalsAll ↔
      integers.truth (sqlValue integers oneFive outerFive equalsAll) = some true) := by
  intro h
  exact h.2 rfl rfl

end SubqueryJoins
end PgYaap
