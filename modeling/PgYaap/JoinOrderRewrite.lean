import Mathlib
import PgYaap.DisjointSets
import PgYaap.JoinEnumeration

/-! # Join order: from a tree of joins to plans of its components

Model of `JoinOrderOptimizer::Rewrite` (`join_order_optimizer.cpp`,
`join_order_relation_manager.cpp`) on a reorderable tree, with `TryExtractJoinSides`
(`join_order_filter_info.cpp`) and `JoinOrderQueryGraphManager::Build`. What a relation is
below the joins, the statistics and the reconstruction of operators from the recorded plans
are left out; table masks are sets of table indexes. -/
namespace PgYaap
namespace JoinOrderRewrite

open LogicalPlan QueryGraphEdges JoinEnumeration DisjointSets

/-! ## The tree and its conditions -/

/-- A tree that `IsReorderableJoinTree` accepts, down to the relations, which are given by the
tables they put out. -/
inductive JoinTree
  | relation (outputTables : Finset Nat)
  | crossProduct (left right : JoinTree)
  | comparisonJoin (joinType : JoinType) (invertResult : Bool) (conditions : List Expression)
      (left right : JoinTree)
  | filter (expressions : List Expression) (child : JoinTree)

/-- `JoinOrderJoinCondition`. -/
structure JoinCondition where
  expression : Expression
  relationMask : RelationSet := ∅
  leftTableMask : Finset Nat := ∅
  rightTableMask : Finset Nat := ∅
  leftRelationMask : RelationSet := ∅
  rightRelationMask : RelationSet := ∅
  joinType : JoinType := .inner
  invertResult : Bool := false
  fromResidualPredicate : Bool := false

/-- What `ExtractJoinGraph` makes of a filter expression: a conjunction is split once. -/
def filterConditions : Expression → List JoinCondition
  | .conjunction boolExprType children =>
    if boolExprType = 0 then children.map fun child => { expression := child }
    else [{ expression := .conjunction boolExprType children }]
  | expression => [{ expression := expression }]

/-- `ExtractJoinGraph`: the output tables of the relations, and the conditions. -/
def extractJoinGraph : JoinTree → List (Finset Nat) × List JoinCondition
  | .relation outputTables => ([outputTables], [])
  | .crossProduct left right =>
    ((extractJoinGraph left).1 ++ (extractJoinGraph right).1,
      (extractJoinGraph left).2 ++ (extractJoinGraph right).2)
  | .comparisonJoin joinType invertResult conditions left right =>
    ((extractJoinGraph left).1 ++ (extractJoinGraph right).1,
      conditions.map (fun condition =>
        { expression := condition, joinType := joinType, invertResult := invertResult }) ++
        (extractJoinGraph left).2 ++ (extractJoinGraph right).2)
  | .filter expressions child =>
    ((extractJoinGraph child).1, expressions.flatMap filterConditions ++ (extractJoinGraph child).2)

/-- `TableMaskToRelationMask`. -/
def tableMaskToRelationMask (tableMask : Finset Nat) (relations : List (Finset Nat)) :
    RelationSet :=
  (Finset.range relations.length).filter fun idx => (relations.getD idx ∅ ∩ tableMask).Nonempty

/-- `ReferencedRelationMask`. -/
def referencedRelationMask (expression : Expression) (relations : List (Finset Nat)) :
    RelationSet := tableMaskToRelationMask expression.referencedTables relations

mutual

/-- `ExtractExpressionMask`: subqueries are not looked into. -/
def extractExpressionMask : Expression → Finset Nat
  | .columnRef binding => {binding.tableIndex}
  | .function _ _ children => extractListMask children
  | .conjunction _ children => extractListMask children
  | .aggregate _ _ _ children => extractListMask children
  | .subquery _ _ _ => ∅
  | .constant _ _ => ∅
  | .opaqueExpr => ∅

/-- The loop of `ExtractExpressionMask` over children. -/
def extractListMask : List Expression → Finset Nat
  | [] => ∅
  | child :: rest => extractExpressionMask child ∪ extractListMask rest

end

mutual

/-- `TryExtractJoinSides`. -/
def tryExtractJoinSides : Expression → Option (Finset Nat × Finset Nat)
  | .function _ _ [first, second] =>
    let firstMask := extractExpressionMask first
    let secondMask := extractExpressionMask second
    if firstMask = ∅ ∨ secondMask = ∅ ∨ firstMask ∩ secondMask ≠ ∅ then none
    else some (firstMask, secondMask)
  | .conjunction boolExprType children =>
    if boolExprType ≠ 0 then none
    else
      (aggregateSides children none).bind fun sides =>
        if sides.1 = ∅ ∨ sides.2 = ∅ ∨ sides.1 ∩ sides.2 ≠ ∅ then none else some sides
  | _ => none

/-- The loop of `TryExtractJoinSides` over the children of a conjunction. -/
def aggregateSides : List Expression → Option (Finset Nat × Finset Nat) →
    Option (Finset Nat × Finset Nat)
  | [], aggregate => aggregate
  | child :: rest, aggregate =>
    (tryExtractJoinSides child).bind fun sides =>
      match aggregate with
      | none => aggregateSides rest (some sides)
      | some (left, right) =>
        if sides.1 ∩ right = ∅ ∧ sides.2 ∩ left = ∅ then
          aggregateSides rest (some (left ∪ sides.1, right ∪ sides.2))
        else if sides.1 ∩ left = ∅ ∧ sides.2 ∩ right = ∅ then
          aggregateSides rest (some (left ∪ sides.2, right ∪ sides.1))
        else none

end

/-- The masks that `Rewrite` gives a condition. -/
def resolveMasks (relations : List (Finset Nat)) (condition : JoinCondition) : JoinCondition :=
  let resolved := { condition with
    relationMask := referencedRelationMask condition.expression relations }
  match tryExtractJoinSides condition.expression with
  | none => resolved
  | some (left, right) =>
    { resolved with
      leftTableMask := left
      rightTableMask := right
      leftRelationMask := tableMaskToRelationMask left relations
      rightRelationMask := tableMaskToRelationMask right relations }

/-- The conditions over two or more relations; the others stay filters. -/
def joinConditions (tree : JoinTree) : List JoinCondition :=
  ((extractJoinGraph tree).2.map (resolveMasks (extractJoinGraph tree).1)).filter
    fun condition => 2 ≤ condition.relationMask.card

/-! ## `FindJoinComponents` -/

/-- The unions for one condition: its first relation with each other one. -/
def memberPairs : List Nat → List (Nat × Nat)
  | [] => []
  | first :: rest => rest.map fun member => (first, member)

/-- The unions of `FindJoinComponents`. -/
def componentPairs (relationCount : Nat) (conditions : List JoinCondition) : List (Nat × Nat) :=
  (conditions.filter fun condition =>
    !condition.fromResidualPredicate && decide (2 ≤ condition.relationMask.card)).flatMap
    fun condition => memberPairs ((List.range relationCount).filter (· ∈ condition.relationMask))

/-- The roots of the relations; each lookup compresses the paths for the next. -/
def rootsFrom (relationCount : Nat) : List Nat → (Nat → Nat) → List (Nat × Nat)
  | [], _ => []
  | idx :: rest, parent =>
    let found := findRoot relationCount parent idx
    (idx, found.1) :: rootsFrom relationCount rest found.2

/-- `FindJoinComponents`: the masks by ascending root. -/
def findJoinComponents (relationCount : Nat) (conditions : List JoinCondition) :
    List RelationSet :=
  let forest := uniteAll relationCount (componentPairs relationCount conditions) singletons
  let roots := rootsFrom relationCount (List.range relationCount) forest.parent
  ((List.range relationCount).map fun root =>
    ((roots.filter fun entry => entry.2 = root).map Prod.fst).toFinset).filter (· ≠ ∅)

/-! ## `Build` -/

/-- `filter_index` and the edges created so far. -/
structure BuildState where
  filterIndex : Nat
  edges : List JoinEdge

/-- `emit_filter`. -/
def emitFilter (condition : JoinCondition) (left right : RelationSet) (residual createEdge : Bool)
    (state : BuildState) : BuildState :=
  if left = ∅ ∨ right = ∅ ∨ left ∩ right ≠ ∅ then state
  else
    let filterInfo : JoinOrderFilterInfo := ⟨state.filterIndex, condition.joinType, residual⟩
    { filterIndex := state.filterIndex + 1
      edges := if createEdge then state.edges ++ [⟨left, right, some filterInfo⟩]
        else state.edges }

/-- The parts of a mask, from the mask itself down to the empty one, as the loop
`subset = (subset - 1) & mask` takes them; the relations of the mask are given descending. -/
def submasksDescending : List Nat → List RelationSet
  | [] => [∅]
  | relation :: rest =>
    (submasksDescending rest).map (insert relation) ++ submasksDescending rest

/-- The halves that the loop keeps: as numbers, two disjoint masks compare by their highest
relations. -/
def keptHalf (mask half : RelationSet) : Bool :=
  half ≠ ∅ ∧ half ≠ mask ∧ ¬ (mask \ half).sup id < half.sup id

/-- One condition in `Build`. -/
def buildCondition (subsetMask : RelationSet) (state : BuildState) (condition : JoinCondition) :
    BuildState :=
  let conditionMask := condition.relationMask ∩ subsetMask
  if conditionMask.card < 2 then state
  else
    let left := condition.leftRelationMask ∩ subsetMask
    let right := condition.rightRelationMask ∩ subsetMask
    if condition.fromResidualPredicate ∨ left = ∅ ∨ right = ∅ ∨ left ∩ right ≠ ∅ then
      if left = ∅ ∨ right = ∅ ∨ left ∩ right ≠ ∅ then
        let lowest : RelationSet := {lowestRelationIndex conditionMask}
        emitFilter condition lowest (conditionMask \ lowest) true false state
      else emitFilter condition left right true false state
    else if left.card = 1 ∧ right.card = 1 then emitFilter condition left right false true state
    else
      ((submasksDescending (relationIndexes conditionMask).reverse).filter
        (keptHalf conditionMask)).foldl
        (fun state half => emitFilter condition half (conditionMask \ half) false true state) state

/-- `Build`. -/
def build (subsetMask : RelationSet) (conditions : List JoinCondition) : List JoinEdge :=
  (conditions.foldl (buildCondition subsetMask) ⟨0, []⟩).edges

/-! ## `Rewrite` -/

/-- What `Solve` reconstructs a plan from. -/
inductive ComponentPlan (Cost : Type)
  | relation (relationIdx : Nat)
  | joined (node : JoinOrderDPJoinNode Cost)

variable {Cost Stats : Type} (model : JoinOrderCostModel Cost Stats) (cardinality : Nat → Nat)
  (stats : Nat → Stats)

/-- `OptimizeJoinSubset`, which is `Solve`. -/
def optimizeJoinSubset (relationCount : Nat) (conditions : List JoinCondition)
    (subsetMask : RelationSet) : Option (ComponentPlan Cost) :=
  if subsetMask.card < 2 then some (.relation (lowestRelationIndex subsetMask))
  else
    let enumerator : JoinOrderPlanEnumerator Cost Stats :=
      ⟨relationCount, subsetMask, buildEdges (build subsetMask conditions) QueryEdge.empty, model⟩
    (solveJoinOrderExactly enumerator (initializeLeafPlans enumerator cardinality stats)).bind
      fun final => (final.plans subsetMask).map .joined

inductive RewriteResult (Cost : Type)
  | plan (components : List (ComponentPlan Cost))
  | nullPlan
  | tooManyRelations

/-- `Rewrite` on a reorderable tree; the components are joined by cross products. -/
def rewrite (tree : JoinTree) : RewriteResult Cost :=
  let relationCount := (extractJoinGraph tree).1.length
  if relationCount = 0 then .nullPlan
  else if relationCount < 2 then .plan [.relation 0]
  else if 20 < relationCount then .tooManyRelations
  else
    match (findJoinComponents relationCount (joinConditions tree)).mapM
      (optimizeJoinSubset model cardinality stats relationCount (joinConditions tree)) with
    | none => .nullPlan
    | some [] => .nullPlan
    | some components => .plan components

end JoinOrderRewrite
end PgYaap
