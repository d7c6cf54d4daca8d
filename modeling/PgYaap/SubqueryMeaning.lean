import PgYaap.SubqueryJoins

/-! # What the joins of a WHERE clause keep

The SQL value of a predicate with subqueries, the rows that the joins and the filter of a
conjunct keep, and exactly when these are the rows on which the predicate is true. -/
namespace PgYaap
namespace SubqueryJoins

open LogicalPlan ExpressionEvaluation ThreeValuedLogic

/-! ## The SQL value -/

/-- Subqueries with their rows: for an outer row, the rows of the subquery evaluated on it.
They depend on no other column than those the plan names. -/
structure PlanMeaning (Plan V : Type) extends PlanWalks Plan where
  rows : Plan → Env V → List (Env V)
  rows_congr : ∀ plan row row', (∀ b ∈ columns plan, b.tableIndex ∉ outputTables plan →
    row b = row' b) → rows plan row = rows plan row'
  mem_outputTables : ∀ plan, ∀ b ∈ producedOutputs plan, b.tableIndex ∈ outputTables plan

variable {Plan V : Type} (I : Interpretation V) (S : PlanMeaning Plan V)

/-- The outer row with a row of the subquery beside it. -/
def PlanMeaning.beside (plan : Plan) (outer row : Env V) : Env V := fun b =>
  if b.tableIndex ∈ S.outputTables plan then row b else outer b

/-- The truth of join conditions on a pair of rows. -/
def conditionsTruth (plan : Plan) (outer row : Env V) (conditions : List Expression) : Truth :=
  allOf (conditions.map (truthOf I (S.beside plan outer row)))

/-- The test of a subquery on each of its rows. -/
def testTruths (outer : Env V) (sub : BoundSubqueryExpression Plan) : List Truth :=
  (S.rows sub.subqueryPlan outer).map fun row =>
    conditionsTruth I S sub.subqueryPlan outer row (subqueryConditions S.toPlanWalks sub)

/-- The SQL value of EXISTS, ALL, ANY and of a scalar subquery (a second row is an error in
SQL; here the first row counts). -/
def subqueryValue (outer : Env V) (sub : BoundSubqueryExpression Plan) : Option V :=
  if sub.sublinkType = 0 then
    I.ofTruth (some !(S.rows sub.subqueryPlan outer).isEmpty)
  else if sub.sublinkType = 1 then I.ofTruth (allOf (testTruths I S outer sub))
  else if sub.sublinkType = 2 then I.ofTruth (anyOf (testTruths I S outer sub))
  else if sub.sublinkType = 4 then
    match S.rows sub.subqueryPlan outer, S.producedOutputs sub.subqueryPlan with
    | row :: _, output :: _ => row output
    | _, _ => none
  else none

mutual

/-- The SQL value of an expression of a WHERE clause. -/
def sqlValue (row : Env V) : WhereExpression Plan → Option V
  | .columnRef binding => row binding
  | .constant value isNull => if isNull then none else I.constant value
  | .function functionName opOid children =>
    functionValue I functionName opOid (sqlValues row children)
  | .aggregate functionName aggOid isDistinct children =>
    I.aggregate functionName aggOid isDistinct (sqlValues row children)
  | .conjunction boolExprType children =>
    I.ofTruth (connective boolExprType ((sqlValues row children).map I.truth))
  | .subquery sub => subqueryValue I S row sub

/-- The values of a list of expressions. -/
def sqlValues (row : Env V) : List (WhereExpression Plan) → List (Option V)
  | [] => []
  | e :: es => sqlValue row e :: sqlValues row es

end

/-! ## The rows a plan keeps -/

/-- The rows a join sees on its right: evaluated anew for each left row when it is
dependent, once for the enclosing row `outer` otherwise. -/
def rightRows (outer left : Env V) (join : LogicalJoin) (plan : Plan) : List (Env V) :=
  S.rows plan (if join.dependent then left else outer)

/-- The conditions of a join on each row of its right. -/
def joinTruths (outer left : Env V) (join : LogicalJoin) (plan : Plan) : List Truth :=
  (rightRows S outer left join plan).map fun row =>
    conditionsTruth I S plan left row join.conditions

/-- The left row with the columns that a MARK or a SINGLE join adds. -/
def extendRow (outer left : Env V) (join : LogicalJoin) (plan : Plan) : Env V :=
  if join.joinType = .mark then
    Function.update left ⟨join.markIndex, 0⟩
      (I.ofTruth (anyOf (joinTruths I S outer left join plan)))
  else
    match (rightRows S outer left join plan).filter fun row =>
        conditionsTruth I S plan left row join.conditions = some true with
    | row :: _ => S.beside plan left row
    | [] => S.beside plan left fun _ => none

/-- What a join makes of one left row. The adapter builds no other type of join here. -/
def joinRow (outer left : Env V) (join : LogicalJoin) (plan : Plan) : List (Env V) :=
  match join.joinType with
  | .mark => [extendRow I S outer left join plan]
  | .single => [extendRow I S outer left join plan]
  | .anti => if some true ∈ joinTruths I S outer left join plan then [] else [left]
  | .semi => if some true ∈ joinTruths I S outer left join plan then [left] else []
  | _ => []

/-- The joins of a plan, innermost first. -/
def joinRows (outer : Env V) (joins : List (LogicalJoin × Plan)) (rows : List (Env V)) :
    List (Env V) :=
  joins.foldl (fun rows join => rows.flatMap fun row => joinRow I S outer row join.1 join.2) rows

/-- **The plan of a conjunct keeps the row.** A MARK join that no filter uses is what
`SimplifyExistsStyleMarkJoin` makes of it. -/
def KeepsRow (leftTables : Finset Nat) (nextTableIndex : Nat) (outer row : Env V)
    (e : WhereExpression Plan) : Prop :=
  match translateWhereConjunct S.toPlanWalks ⟨leftTables, nextTableIndex, []⟩ e with
  | (b, some filter) =>
    ∃ out ∈ joinRows I S outer b.joins [row], I.truth (sqlValue I S out filter) = some true
  | (b, none) =>
    joinRows I S outer (b.joins.map fun join =>
      (simplifyExistsStyleMarkJoin leftTables (S.outputTables join.2) join.1, join.2)) [row] ≠ []

/-! ## What the parser promises -/

mutual

/-- The subqueries of an expression. -/
def subqueriesIn : WhereExpression Plan → List (BoundSubqueryExpression Plan)
  | .columnRef _ => []
  | .constant _ _ => []
  | .function _ _ children => subqueriesInList children
  | .aggregate _ _ _ children => subqueriesInList children
  | .conjunction _ children => subqueriesInList children
  | .subquery sub => [sub]

/-- Those of the arguments. -/
def subqueriesInList : List (WhereExpression Plan) → List (BoundSubqueryExpression Plan)
  | [] => []
  | e :: es => subqueriesIn e ++ subqueriesInList es

end

mutual

/-- The columns an expression refers to outside of its subqueries. -/
def columnsIn : WhereExpression Plan → List ColumnBinding
  | .columnRef binding => [binding]
  | .constant _ _ => []
  | .function _ _ children => columnsInList children
  | .aggregate _ _ _ children => columnsInList children
  | .conjunction _ children => columnsInList children
  | .subquery _ => []

/-- Those of the arguments. -/
def columnsInList : List (WhereExpression Plan) → List ColumnBinding
  | [] => []
  | e :: es => columnsIn e ++ columnsInList es

end

/-- A subquery of one of the four kinds; only a quantified comparison has a test. -/
def PredicateSubquery (sub : BoundSubqueryExpression Plan) : Prop :=
  (sub.sublinkType = 0 ∨ sub.sublinkType = 1 ∨ sub.sublinkType = 2 ∨ sub.sublinkType = 4) ∧
    (sub.sublinkType = 0 → sub.children = [])

/-- A column that exists before WHERE is translated: an index given out earlier, of no
subquery of the conjunct. -/
def Outside (nextTableIndex : Nat) (subs : List (BoundSubqueryExpression Plan))
    (b : ColumnBinding) : Prop :=
  b.tableIndex < nextTableIndex ∧ ∀ sub ∈ subs, b.tableIndex ∉ S.outputTables sub.subqueryPlan

/-- **Table indexes are given out once** (`GenerateTableIndex`): the tables of the subqueries
are apart, and whatever else the conjunct names exists outside of them. -/
structure IndexedApart (nextTableIndex : Nat) (e : WhereExpression Plan) : Prop where
  apart : (subqueriesIn e).Pairwise fun s t =>
    Disjoint (S.outputTables s.subqueryPlan) (S.outputTables t.subqueryPlan)
  tables : ∀ s ∈ subqueriesIn e, ∀ t ∈ S.outputTables s.subqueryPlan, t < nextTableIndex
  plans : ∀ s ∈ subqueriesIn e, ∀ b ∈ S.columns s.subqueryPlan,
    b.tableIndex ∉ S.outputTables s.subqueryPlan → Outside S nextTableIndex (subqueriesIn e) b
  tests : ∀ s ∈ subqueriesIn e, ∀ c ∈ subqueryConditions S.toPlanWalks s, ∀ b ∈ c.bindings,
    b.tableIndex ∉ S.outputTables s.subqueryPlan → Outside S nextTableIndex (subqueriesIn e) b
  columns : ∀ b ∈ columnsIn e, Outside S nextTableIndex (subqueriesIn e) b

end SubqueryJoins
end PgYaap
