import PgYaap.ExpressionEvaluation

/-! # Joins for the subqueries of a WHERE clause

The dependent join the adapter builds for a subquery (`BuildDependentJoin`,
`PromoteScalarSubqueryExpression`), the loop over the conjuncts of WHERE, and the reading of
a MARK join that no filter uses (`SimplifyExistsStyleMarkJoin`). The plan of a subquery is a
parameter: its outputs, its tables and the columns it reads. -/
namespace PgYaap
namespace SubqueryJoins

open LogicalPlan Expression

/-! ## Expressions with subqueries -/

/-- `BoundSubqueryExpression`; `children` holds the test of ANY, ALL and row comparisons. -/
structure BoundSubqueryExpression (Plan : Type) where
  sublinkType : Int
  subqueryPlan : Plan
  children : List Expression

/-- An expression of a WHERE clause. -/
inductive WhereExpression (Plan : Type)
  | columnRef (binding : ColumnBinding)
  | constant (value : String) (isNull : Bool)
  | function (functionName : String) (opOid : Int) (children : List (WhereExpression Plan))
  | aggregate (functionName : String) (aggOid : Int) (isDistinct : Bool)
      (children : List (WhereExpression Plan))
  | conjunction (boolExprType : Int) (children : List (WhereExpression Plan))
  | subquery (sub : BoundSubqueryExpression Plan)

/-- `SubLinkName`. -/
def subLinkName (sublinkType : Int) : String :=
  if sublinkType = 0 then "EXISTS"
  else if sublinkType = 1 then "ALL"
  else if sublinkType = 2 then "ANY"
  else if sublinkType = 3 then "ROWCOMPARE"
  else if sublinkType = 4 then "EXPR"
  else if sublinkType = 5 then "MULTIEXPR"
  else if sublinkType = 6 then "ARRAY"
  else if sublinkType = 7 then "CTE"
  else "SUBLINK"

/-- What the walks over a translated subquery find: `CollectProducedOutputs`,
`CollectOutputTables` and the columns `CollectCorrelatedColumnsFromPlan` passes. -/
structure PlanWalks (Plan : Type) where
  producedOutputs : Plan → List ColumnBinding
  outputTables : Plan → Finset Nat
  columns : Plan → List ColumnBinding

variable {Plan : Type} (W : PlanWalks Plan)

/-- `CollectCorrelatedColumnsFromPlan`. -/
def PlanWalks.correlatedColumns (plan : Plan) (allowedTables : Finset Nat) :
    List ColumnBinding :=
  (W.columns plan).filter fun b => allowedTables = ∅ ∨ b.tableIndex ∈ allowedTables

/-! ## The join of one subquery -/

mutual

/-- `RewriteSubqueryParams`: every `param$` constant becomes the next output. -/
def rewriteSubqueryParams (outputs : List ColumnBinding) :
    Expression → Expression × List ColumnBinding
  | function functionName opOid children =>
    let (children, outputs) := rewriteSubqueryParamsList outputs children
    (function functionName opOid children, outputs)
  | aggregate functionName aggOid isDistinct children =>
    let (children, outputs) := rewriteSubqueryParamsList outputs children
    (aggregate functionName aggOid isDistinct children, outputs)
  | conjunction boolExprType children =>
    let (children, outputs) := rewriteSubqueryParamsList outputs children
    (conjunction boolExprType children, outputs)
  | subquery sublinkType sublinkName children =>
    let (children, outputs) := rewriteSubqueryParamsList outputs children
    (subquery sublinkType sublinkName children, outputs)
  | constant value isNull =>
    if isNull = false ∧ "param$".toList.isPrefixOf value.toList then
      match outputs with
      | output :: outputs => (columnRef output, outputs)
      | [] => (constant value isNull, [])
    else (constant value isNull, outputs)
  | columnRef binding => (columnRef binding, outputs)
  | opaqueExpr => (opaqueExpr, outputs)

/-- The loop over the arguments. -/
def rewriteSubqueryParamsList (outputs : List ColumnBinding) :
    List Expression → List Expression × List ColumnBinding
  | [] => ([], outputs)
  | e :: es =>
    let (e, outputs) := rewriteSubqueryParams outputs e
    let (es, outputs) := rewriteSubqueryParamsList outputs es
    (e :: es, outputs)

end

/-- The condition of the join: the test, when there is one and the subquery has outputs. -/
def subqueryConditions (sub : BoundSubqueryExpression Plan) : List Expression :=
  match sub.children, W.producedOutputs sub.subqueryPlan with
  | test :: _, output :: outputs => [(rewriteSubqueryParams (output :: outputs) test).1]
  | _, _ => []

/-- The join type of `BuildDependentJoin`. -/
def subqueryJoinType (sublinkName : String) (negated : Bool) : JoinType :=
  if sublinkName = "EXISTS" then .mark
  else if sublinkName = "ANY" ∨ sublinkName = "ARRAY" then .mark
  else if sublinkName = "ALL" then if negated then .semi else .anti
  else if sublinkName = "ROWCOMPARE" ∨ sublinkName = "EXPR" ∨ sublinkName = "MULTIEXPR" then .single
  else .semi

/-- The plan so far: its tables, the next table index and the joins on top of the FROM
clause, the innermost first. -/
structure Builder (Plan : Type) where
  leftTables : Finset Nat
  nextTableIndex : Nat
  joins : List (LogicalJoin × Plan)

/-- The mark index of a join without one, `TableIndex{-1}`. -/
def noMarkIndex : Nat := 2 ^ 64 - 1

/-- A new join with `plan` on its right. -/
def Builder.push (b : Builder Plan) (join : LogicalJoin) (plan : Plan) (nextTableIndex : Nat) :
    Builder Plan :=
  { leftTables := b.leftTables ∪ W.outputTables plan
    nextTableIndex := nextTableIndex
    joins := b.joins ++ [(join, plan)] }

/-- The join that `BuildDependentJoin` puts on top of the plan `b`. -/
def dependentJoinFor (b : Builder Plan) (sub : BoundSubqueryExpression Plan) (negated : Bool) :
    LogicalJoin :=
  let joinType := subqueryJoinType (subLinkName sub.sublinkType) negated
  let correlated := W.correlatedColumns sub.subqueryPlan b.leftTables
  let dependent := !correlated.isEmpty
  { operator := if dependent then .dependentJoin else .comparisonJoin
    joinType := joinType
    dependent := dependent
    markIndex := if joinType = .mark then b.nextTableIndex else noMarkIndex
    hasMarkIndex := joinType = .mark
    convertMarkToSemi := true
    invertResult := negated
    conditions := subqueryConditions W sub
    correlatedColumns := correlated
    performDelim := dependent
    anyJoin := dependent && joinType = .mark }

/-- `BuildDependentJoin`. -/
def buildDependentJoin (b : Builder Plan) (sub : BoundSubqueryExpression Plan)
    (negated : Bool) : Builder Plan :=
  let join := dependentJoinFor W b sub negated
  b.push W join sub.subqueryPlan
    (if join.joinType = .mark then b.nextTableIndex + 1 else b.nextTableIndex)

/-- The SINGLE join of `PromoteScalarSubqueryExpression`. -/
def buildSingleJoin (b : Builder Plan) (plan : Plan) : Builder Plan :=
  let join : LogicalJoin :=
    { operator := .dependentJoin
      joinType := .single
      dependent := true
      markIndex := noMarkIndex
      hasMarkIndex := false
      convertMarkToSemi := true
      invertResult := false
      conditions := []
      correlatedColumns := W.correlatedColumns plan b.leftTables
      performDelim := true
      anyJoin := false }
  b.push W join plan b.nextTableIndex

/-! ## Subqueries inside an expression -/

mutual

/-- `PromoteScalarSubqueryExpression`: EXISTS, ANY and ARRAY become the marker of a MARK
join, a scalar subquery the one column of a SINGLE join. -/
def promoteScalarSubqueryExpression (b : Builder Plan) :
    WhereExpression Plan → WhereExpression Plan × Builder Plan
  | .function functionName opOid children =>
    let (children, b) := promoteScalarSubqueryExpressions b children
    (.function functionName opOid children, b)
  | .aggregate functionName aggOid isDistinct children =>
    let (children, b) := promoteScalarSubqueryExpressions b children
    (.aggregate functionName aggOid isDistinct children, b)
  | .conjunction boolExprType children =>
    let (children, b) := promoteScalarSubqueryExpressions b children
    (.conjunction boolExprType children, b)
  | .subquery sub =>
    if sub.sublinkType = 0 ∨ sub.sublinkType = 2 ∨ sub.sublinkType = 6 then
      (.columnRef ⟨b.nextTableIndex, 0⟩, buildDependentJoin W b sub false)
    else if sub.sublinkType ≠ 3 ∧ sub.sublinkType ≠ 4 ∧ sub.sublinkType ≠ 5 then
      (.subquery sub, b)
    else
      match W.producedOutputs sub.subqueryPlan with
      | [output] => (.columnRef output, buildSingleJoin W b sub.subqueryPlan)
      | _ => (.subquery sub, b)
  | .columnRef binding => (.columnRef binding, b)
  | .constant value isNull => (.constant value isNull, b)

/-- The loop over the arguments. -/
def promoteScalarSubqueryExpressions (b : Builder Plan) :
    List (WhereExpression Plan) → List (WhereExpression Plan) × Builder Plan
  | [] => ([], b)
  | e :: es =>
    let (e, b) := promoteScalarSubqueryExpression b e
    let (es, b) := promoteScalarSubqueryExpressions b es
    (e :: es, b)

end

/-! ## The WHERE clause -/

/-- `IsNotConjunction`. -/
def isNotConjunction : WhereExpression Plan → Bool
  | .conjunction boolExprType children => boolExprType = 2 && children.length = 1
  | _ => false

/-- `ExtractTopLevelSubquery`. -/
def extractTopLevelSubquery : WhereExpression Plan → Option (BoundSubqueryExpression Plan)
  | .subquery sub => some sub
  | .conjunction boolExprType [.subquery sub] =>
    if boolExprType = 2 then some sub else none
  | _ => none

/-- One round of the loop of `TranslatePGQuery` over the conjuncts of WHERE: the plan and
the filter that remains of the conjunct. -/
def translateWhereConjunct (b : Builder Plan) (e : WhereExpression Plan) :
    Builder Plan × Option (WhereExpression Plan) :=
  match extractTopLevelSubquery e with
  | some sub => (buildDependentJoin W b sub (isNotConjunction e), none)
  | none =>
    let (e, b) := promoteScalarSubqueryExpression W b e
    (b, some e)

/-- `SimplifyExistsStyleMarkJoin`, for a join with the tables `leftTables` on its left. -/
def simplifyExistsStyleMarkJoin (leftTables rightTables : Finset Nat) (join : LogicalJoin) :
    LogicalJoin :=
  if join.joinType = .mark ∧ join.convertMarkToSemi = true then
    if ∃ c ∈ join.conditions, c.referencedTables = ∅ ∨ c.referencedTables ⊆ leftTables ∨
        c.referencedTables ⊆ rightTables then
      join
    else
      { join with
        joinType := if join.invertResult then .anti else .semi
        invertResult := false
        hasMarkIndex := false
        markIndex := noMarkIndex
        anyJoin := if join.operator = .comparisonJoin then join.anyJoin else false }
  else join

end SubqueryJoins
end PgYaap
