import PgYaap.PhysicalPlan

/-! # Canonicalization of aggregate references

An aggregate that an operator above an aggregation still names is replaced by the column
that produces it (`CanonicalizeAggregateRefs`, `FinalizeAggregateCanonicalization`). The
column is looked up by a fingerprint of the expression and, where none has it, by the name
of the aggregate function. -/
namespace PgYaap
namespace AggregateCanonicalization

open LogicalPlan PhysicalPlan Expression

/-! ## Fingerprints -/

mutual

/-- `ExpressionSemanticKey`. -/
def expressionSemanticKey : Expression → String
  | columnRef binding => s!"col:{binding.tableIndex}.{binding.columnIndex}"
  | constant value isNull => "const:" ++ if isNull then "NULL" else value
  | function functionName opOid children =>
    s!"fn:{functionName}:{opOid}(" ++ ",".intercalate (semanticKeys children) ++ ")"
  | aggregate functionName aggOid isDistinct children =>
    s!"agg:{functionName}:{aggOid}:" ++ (if isDistinct then "distinct" else "all") ++
      "(" ++ ",".intercalate (semanticKeys children) ++ ")"
  | conjunction boolExprType children =>
    s!"conj:{boolExprType}(" ++ ",".intercalate (semanticKeys children) ++ ")"
  | subquery _ sublinkName children =>
    s!"subquery:{sublinkName}(" ++ ",".intercalate (semanticKeys children) ++ ")"
  | opaqueExpr => "opaque:7"

/-- The fingerprints of the arguments. -/
def semanticKeys : List Expression → List String
  | [] => []
  | e :: es => expressionSemanticKey e :: semanticKeys es

end

/-! ## The columns that produce an aggregate -/

/-- `BoundAggregateExpression`. -/
structure BoundAggregateExpression where
  functionName : String
  aggOid : Int
  isDistinct : Bool
  children : List Expression

/-- The aggregate as an expression. -/
def BoundAggregateExpression.toExpression (agg : BoundAggregateExpression) : Expression :=
  .aggregate agg.functionName agg.aggOid agg.isDistinct agg.children

/-- `dynamic_cast` to an aggregate of the function `functionName`. -/
def isAggregateOf (functionName : String) : Expression → Bool
  | aggregate name _ _ _ => name == functionName
  | _ => false

/-- `CollectAggregateProducedColumns`: the visible columns whose expression has the
fingerprint of `agg`. The first aggregation met on the way down ends the search. -/
def collectAggregateProducedColumns (agg : BoundAggregateExpression)
    (visibleOutputs : List ColumnBinding) : PhysicalOperator → List ColumnBinding
  | .hashGroupBy _ aggregateIndex _ expressions _ =>
    expressions.zipIdx.filterMap fun (produced, idx) =>
      if expressionSemanticKey produced = expressionSemanticKey agg.toExpression ∧
          ⟨aggregateIndex, idx⟩ ∈ visibleOutputs then
        some ⟨aggregateIndex, idx⟩
      else none
  | .filter _ child => collectAggregateProducedColumns agg visibleOutputs child
  | .projection _ _ child => collectAggregateProducedColumns agg visibleOutputs child
  | .orderBy _ child => collectAggregateProducedColumns agg visibleOutputs child
  | .limit _ _ child => collectAggregateProducedColumns agg visibleOutputs child
  | .distinct _ child => collectAggregateProducedColumns agg visibleOutputs child
  | .window _ _ _ _ child => collectAggregateProducedColumns agg visibleOutputs child
  | .setOperation _ _ _ left right => collectAggregateProducedColumns agg visibleOutputs left ++
      collectAggregateProducedColumns agg visibleOutputs right
  | .hashJoin _ left right => collectAggregateProducedColumns agg visibleOutputs left ++
      collectAggregateProducedColumns agg visibleOutputs right
  | .crossProduct left right => collectAggregateProducedColumns agg visibleOutputs left ++
      collectAggregateProducedColumns agg visibleOutputs right
  | .tableScan _ _ _ _ => []
  | .delimScan _ _ => []

/-- `AggregateRewriteCandidate`. -/
structure AggregateRewriteCandidate where
  semanticKey : String
  binding : ColumnBinding

/-- `CollectAggregateProducedColumnsByFunction`: the visible columns whose expression is an
aggregate of the same function. -/
def collectAggregateProducedColumnsByFunction (agg : BoundAggregateExpression)
    (visibleOutputs : List ColumnBinding) : PhysicalOperator → List AggregateRewriteCandidate
  | .hashGroupBy _ aggregateIndex _ expressions _ =>
    expressions.zipIdx.filterMap fun (produced, idx) =>
      if isAggregateOf agg.functionName produced ∧ ⟨aggregateIndex, idx⟩ ∈ visibleOutputs then
        some ⟨expressionSemanticKey produced, ⟨aggregateIndex, idx⟩⟩
      else none
  | .filter _ child => collectAggregateProducedColumnsByFunction agg visibleOutputs child
  | .projection _ _ child => collectAggregateProducedColumnsByFunction agg visibleOutputs child
  | .orderBy _ child => collectAggregateProducedColumnsByFunction agg visibleOutputs child
  | .limit _ _ child => collectAggregateProducedColumnsByFunction agg visibleOutputs child
  | .distinct _ child => collectAggregateProducedColumnsByFunction agg visibleOutputs child
  | .window _ _ _ _ child => collectAggregateProducedColumnsByFunction agg visibleOutputs child
  | .setOperation _ _ _ left right =>
    collectAggregateProducedColumnsByFunction agg visibleOutputs left ++
      collectAggregateProducedColumnsByFunction agg visibleOutputs right
  | .hashJoin _ left right =>
    collectAggregateProducedColumnsByFunction agg visibleOutputs left ++
      collectAggregateProducedColumnsByFunction agg visibleOutputs right
  | .crossProduct left right =>
    collectAggregateProducedColumnsByFunction agg visibleOutputs left ++
      collectAggregateProducedColumnsByFunction agg visibleOutputs right
  | .tableScan _ _ _ _ => []
  | .delimScan _ _ => []

/-- `RewriteAggregateExprToProducedColumn`: the one column with the fingerprint; without any,
the first column of the same function, when all such columns share a fingerprint. -/
def rewriteAggregateExprToProducedColumn (agg : BoundAggregateExpression)
    (sources : List PhysicalOperator) : Option Expression :=
  match sources.flatMap fun source => collectAggregateProducedColumns agg source.outputs source with
  | [binding] => some (columnRef binding)
  | _ :: _ :: _ => none
  | [] =>
    match sources.flatMap fun source =>
        collectAggregateProducedColumnsByFunction agg source.outputs source with
    | [] => none
    | candidate :: candidates =>
      if candidates.all fun c => c.semanticKey = candidate.semanticKey then
        some (columnRef candidate.binding)
      else none

/-! ## Rewriting and checking -/

mutual

/-- `RewriteAggregateRefs`, with the flag `changed`. Clones are the expression itself. -/
def rewriteAggregateRefs (sources : List PhysicalOperator) : Expression → Expression × Bool
  | aggregate functionName aggOid isDistinct children =>
    match rewriteAggregateExprToProducedColumn ⟨functionName, aggOid, isDistinct, children⟩
        sources with
    | some rewritten => (rewritten, true)
    | none =>
      let (clones, childChanged) := rewriteAggregateRefsList sources children
      if childChanged then (aggregate functionName aggOid isDistinct clones, true)
      else (aggregate functionName aggOid isDistinct children, false)
  | function functionName opOid children =>
    let (clones, childChanged) := rewriteAggregateRefsList sources children
    if childChanged then (function functionName opOid clones, true)
    else (function functionName opOid children, false)
  | conjunction boolExprType children =>
    let (clones, childChanged) := rewriteAggregateRefsList sources children
    if childChanged then (conjunction boolExprType clones, true)
    else (conjunction boolExprType children, false)
  | e => (e, false)

/-- The loop over the arguments. -/
def rewriteAggregateRefsList (sources : List PhysicalOperator) :
    List Expression → List Expression × Bool
  | [] => ([], false)
  | e :: es =>
    let (clone, changed) := rewriteAggregateRefs sources e
    let (clones, childChanged) := rewriteAggregateRefsList sources es
    (clone :: clones, changed || childChanged)

end

/-- One expression of `CanonicalizeAggregateRefs`. -/
def canonicalizeAggregateRef (sources : List PhysicalOperator) (e : Expression) : Expression :=
  let (rewritten, changed) := rewriteAggregateRefs sources e
  if changed then rewritten else e

/-- `CanonicalizeAggregateRefs`. -/
def canonicalizeAggregateRefs (expressions : List Expression) (sources : List PhysicalOperator) :
    List Expression :=
  expressions.map (canonicalizeAggregateRef sources)

mutual

/-- `ExpressionContainsBoundAggregate`. -/
def expressionContainsBoundAggregate (allowRootAggregate : Bool) : Expression → Bool
  | aggregate _ _ _ children => childrenContainBoundAggregate children || !allowRootAggregate
  | function _ _ children => childrenContainBoundAggregate children
  | conjunction _ children => childrenContainBoundAggregate children
  | subquery _ _ children => childrenContainBoundAggregate children
  | columnRef _ => false
  | constant _ _ => false
  | opaqueExpr => false

/-- The loop over the arguments. -/
def childrenContainBoundAggregate : List Expression → Bool
  | [] => false
  | e :: es => expressionContainsBoundAggregate false e || childrenContainBoundAggregate es

end

/-- `VerifyNoBoundAggregateExpressions`. -/
def verifyNoBoundAggregateExpressions (expressions : List Expression) (context : String)
    (allowRootAggregate : Bool) : Except String Unit :=
  if expressions.any (expressionContainsBoundAggregate allowRootAggregate) then
    throw ("Uncanonicalized aggregate expression remains in " ++ context)
  else pure ()

/-- `FinalizeAggregateCanonicalization`: children first; an aggregate that is still there
after the rewriting is an error. -/
def finalizeAggregateCanonicalization : PhysicalOperator → Except String PhysicalOperator
  | .tableScan tableIndex relid projectedColumns filters => do
    verifyNoBoundAggregateExpressions filters "PhysicalTableScan.filters" false
    return .tableScan tableIndex relid projectedColumns filters
  | .projection tableIndex selectList child => do
    let child ← finalizeAggregateCanonicalization child
    let selectList := canonicalizeAggregateRefs selectList [child]
    verifyNoBoundAggregateExpressions selectList "PhysicalProjection.select_list" false
    return .projection tableIndex selectList child
  | .filter expressions child => do
    let child ← finalizeAggregateCanonicalization child
    let expressions := canonicalizeAggregateRefs expressions [child]
    verifyNoBoundAggregateExpressions expressions "PhysicalFilter.expressions" false
    return .filter expressions child
  | .distinct expressions child => do
    let child ← finalizeAggregateCanonicalization child
    let expressions := canonicalizeAggregateRefs expressions [child]
    verifyNoBoundAggregateExpressions expressions "PhysicalDistinct.expressions" false
    return .distinct expressions child
  | .setOperation tableIndex all outputNames left right => do
    let left ← finalizeAggregateCanonicalization left
    let right ← finalizeAggregateCanonicalization right
    return .setOperation tableIndex all outputNames left right
  | .limit limitCount limitOffset child => do
    let child ← finalizeAggregateCanonicalization child
    verifyNoBoundAggregateExpressions (limitCount.toList ++ limitOffset.toList) "PhysicalLimit"
      false
    return .limit limitCount limitOffset child
  | .window tableIndex functionNames partitions orders child => do
    let child ← finalizeAggregateCanonicalization child
    let partitions := canonicalizeAggregateRefs partitions [child]
    let orders := canonicalizeAggregateRefs orders [child]
    verifyNoBoundAggregateExpressions partitions "PhysicalWindow.partitions" false
    verifyNoBoundAggregateExpressions orders "PhysicalWindow.orders" false
    return .window tableIndex functionNames partitions orders child
  | .hashJoin join left right => do
    let left ← finalizeAggregateCanonicalization left
    let right ← finalizeAggregateCanonicalization right
    let conditions := canonicalizeAggregateRefs join.conditions [left, right]
    verifyNoBoundAggregateExpressions conditions "PhysicalHashJoin.conditions" false
    return .hashJoin { join with conditions := conditions } left right
  | .delimScan tableIndex correlatedColumns => return .delimScan tableIndex correlatedColumns
  | .crossProduct left right => do
    let left ← finalizeAggregateCanonicalization left
    let right ← finalizeAggregateCanonicalization right
    return .crossProduct left right
  | .hashGroupBy groupIndex aggregateIndex groups expressions child => do
    let child ← finalizeAggregateCanonicalization child
    verifyNoBoundAggregateExpressions groups "PhysicalHashAggregate.groups" false
    verifyNoBoundAggregateExpressions expressions "PhysicalHashAggregate.expressions" true
    return .hashGroupBy groupIndex aggregateIndex groups expressions child
  | .orderBy orders child => do
    let child ← finalizeAggregateCanonicalization child
    let orders := canonicalizeAggregateRefs orders [child]
    verifyNoBoundAggregateExpressions orders "PhysicalOrderBy.orders" false
    return .orderBy orders child

end AggregateCanonicalization
end PgYaap
