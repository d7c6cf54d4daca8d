import Mathlib
import PgYaap.QueryGraphEdges

/-! # The exact join order search

Model of `JoinOrderPlanEnumerator` (`join_order_plan_enumerator.cpp`). The state holds the
plans and statistics recorded so far and, for the statements about a run, the calls of
`TryEmitPair` in order. The recursive routines take a fuel argument; `none` is the source's
`return false`, or the end of the fuel. What a cost model computes is a parameter. -/
namespace PgYaap
namespace JoinEnumeration

open LogicalPlan QueryGraphEdges

/-- `JoinOrderDPJoinNode`. -/
structure JoinOrderDPJoinNode (Cost : Type) where
  set : RelationSet
  info : Option JoinOrderNeighborInfo
  isLeaf : Bool
  leftSet : RelationSet
  rightSet : RelationSet
  cost : Cost
  cardinality : Nat

/-- A call of `TryEmitPair`, with the two plans it looks up. -/
structure EmittedPair (Cost : Type) where
  left : RelationSet
  right : RelationSet
  leftState : Option (JoinOrderDPJoinNode Cost)
  rightState : Option (JoinOrderDPJoinNode Cost)

/-- `plans_`, `dp_stats_` and the calls of `TryEmitPair`. -/
structure EnumeratorState (Cost Stats : Type) where
  plans : RelationSet → Option (JoinOrderDPJoinNode Cost)
  dpStats : RelationSet → Option Stats
  emitted : List (EmittedPair Cost)

/-- `JoinOrderCostModel`, the arithmetic of `double` costs and `GetDPStats`. -/
structure JoinOrderCostModel (Cost Stats : Type) where
  estimateCardinality : RelationSet → RelationSet → EnumeratorState Cost Stats →
    List JoinOrderNeighborInfo → Nat
  computeCost : RelationSet → RelationSet → Nat → EnumeratorState Cost Stats → Cost
  combineStats : RelationSet → RelationSet → Nat → EnumeratorState Cost Stats →
    List JoinOrderNeighborInfo → Stats
  getDPStatsCardinality : RelationSet → EnumeratorState Cost Stats → Nat
  zeroCost : Cost
  costLess : Cost → Cost → Bool
  costEqual : Cost → Cost → Bool

variable {Cost Stats : Type}

/-! ## Recording a pair -/

/-- `PrimaryJoinType`. -/
def primaryJoinType (connections : List JoinOrderNeighborInfo) : JoinType :=
  let joinTypes := ((connections.flatMap JoinOrderNeighborInfo.filters).filter
    fun filterInfo => !filterInfo.fromResidualPredicate).map JoinOrderFilterInfo.joinType
  if JoinType.inner ∈ joinTypes then .inner else joinTypes.headD .inner

/-- `IsSemiOrAntiJoinType`. -/
def isSemiOrAntiJoinType (joinType : JoinType) : Bool := joinType = .semi ∨ joinType = .anti

/-- `ConnectionFilterCount`. -/
def connectionFilterCount (connections : List JoinOrderNeighborInfo) : Nat :=
  (connections.map fun info => info.filters.length).sum

/-- The order of `try_record` between a candidate and the plan already recorded. -/
def replaces (model : JoinOrderCostModel Cost Stats) (left right : RelationSet)
    (connections : List JoinOrderNeighborInfo) (cardinality : Nat) (cost : Cost)
    (existing : JoinOrderDPJoinNode Cost) (state : EnumeratorState Cost Stats) : Bool :=
  if model.costLess cost existing.cost then true
  else if !model.costEqual cost existing.cost then false
  else
    let statsOf := fun mask => model.getDPStatsCardinality mask state
    if isSemiOrAntiJoinType (primaryJoinType connections) then
      statsOf left < statsOf existing.leftSet
    else
      let candidateFilterCount := connectionFilterCount connections
      let existingFilterCount := existing.info.elim 0 fun info => info.filters.length
      if candidateFilterCount ≠ existingFilterCount then
        existingFilterCount < candidateFilterCount
      else if statsOf right ≠ statsOf existing.rightSet then
        statsOf right < statsOf existing.rightSet
      else if statsOf left ≠ statsOf existing.leftSet then
        statsOf left < statsOf existing.leftSet
      else cardinality < existing.cardinality

/-- `try_record`. -/
def tryRecord (model : JoinOrderCostModel Cost Stats) (left right : RelationSet)
    (connections : List JoinOrderNeighborInfo) (state : EnumeratorState Cost Stats) :
    EnumeratorState Cost Stats :=
  let cardinality := model.estimateCardinality left right state connections
  let cost := model.computeCost left right cardinality state
  let unionMask := left ∪ right
  let replace := (state.plans unionMask).elim true fun existing =>
    replaces model left right connections cardinality cost existing state
  if replace then
    let node : JoinOrderDPJoinNode Cost :=
      ⟨unionMask, connections.head?, false, left, right, cost, cardinality⟩
    let recorded := { state with plans := Function.update state.plans unionMask (some node) }
    let combined := model.combineStats left right cardinality recorded connections
    { recorded with dpStats := Function.update state.dpStats unionMask (some combined) }
  else state

/-- `TryEmitPair` after the call is noted. -/
def recordPair (model : JoinOrderCostModel Cost Stats) (root : QueryEdge)
    (left right : RelationSet) (state : EnumeratorState Cost Stats) :
    EnumeratorState Cost Stats :=
  if left = ∅ ∨ right = ∅ ∨ left ∩ right ≠ ∅ then state
  else if state.plans left = none ∨ state.plans right = none then state
  else
    let connections := getConnections root left right
    if connections = [] then state
    else
      let recorded := tryRecord model left right connections state
      if isSemiOrAntiJoinType (primaryJoinType connections) then
        let reverseConnections := getConnections root right left
        if reverseConnections = [] then recorded
        else tryRecord model right left reverseConnections recorded
      else recorded

/-- `TryEmitPair`. -/
def tryEmitPair (model : JoinOrderCostModel Cost Stats) (root : QueryEdge)
    (left right : RelationSet) (state : EnumeratorState Cost Stats) :
    EnumeratorState Cost Stats :=
  recordPair model root left right { state with
    emitted := state.emitted ++ [⟨left, right, state.plans left, state.plans right⟩] }

/-! ## Masks -/

/-- What the enumerator is constructed with, and its query graph. -/
structure JoinOrderPlanEnumerator (Cost Stats : Type) where
  relationCount : Nat
  subsetMask : RelationSet
  queryGraph : QueryEdge
  model : JoinOrderCostModel Cost Stats

variable (enumerator : JoinOrderPlanEnumerator Cost Stats)

/-- `HighestRelationIndex`: 0 when no relation is in the mask. -/
def highestRelationIndex (relationCount : Nat) (mask : RelationSet) : Nat :=
  (mask.filter (· < relationCount)).sup id

/-- `LowerRelationsMask`. -/
def lowerRelationsMask (upperBound : Nat) : RelationSet :=
  (Finset.range upperBound).filter (· ∈ enumerator.subsetMask)

/-- `MaskFromRelations`. -/
def maskFromRelations (relations : List Nat) : RelationSet := relations.toFinset

/-- `AddSuperSets`. -/
def addSuperSets (relationCount : Nat) (current : List RelationSet) (allNeighbors : List Nat) :
    List RelationSet :=
  current.flatMap fun neighborSet => allNeighbors.filterMap fun neighbor =>
    if neighbor ≤ highestRelationIndex relationCount neighborSet then none
    else if neighbor ∈ neighborSet then none
    else some (insert neighbor neighborSet)

/-- The `do` loop of `GetAllNeighborSets`: what its rounds add to the subsets. -/
def superSetRounds (relationCount : Nat) (allNeighbors : List Nat) :
    Nat → List RelationSet → List RelationSet
  | 0, _ => []
  | fuel + 1, added =>
    let next := addSuperSets relationCount added allNeighbors
    if next = [] then [] else next ++ superSetRounds relationCount allNeighbors fuel next

/-- `GetAllNeighborSets`; a round adds sets of one relation more. -/
def getAllNeighborSets (relationCount : Nat) (neighbors : List Nat) : List RelationSet :=
  let sorted := neighbors.insertionSort (· ≤ ·)
  let singletons := sorted.map fun neighbor => ({neighbor} : RelationSet)
  singletons ++ superSetRounds relationCount sorted sorted.length singletons

/-! ## The three routines -/

/-- One subset in the first loop of `EnumerateCmp`. -/
def visitCmp (left right subset : RelationSet) (state : EnumeratorState Cost Stats) :
    Option (EnumeratorState Cost Stats) :=
  let combined := right ∪ subset
  if combined = right then none
  else if state.plans combined ≠ none ∧ getConnections enumerator.queryGraph left combined ≠ [] then
    some (tryEmitPair enumerator.model enumerator.queryGraph left combined state)
  else some state

/-- `EnumerateCmp`. -/
def enumerateCmp : Nat → (left right exclusion : RelationSet) → EnumeratorState Cost Stats →
    Option (EnumeratorState Cost Stats)
  | 0, _, _, _, _ => none
  | fuel + 1, left, right, exclusion, state =>
    let neighbors := getNeighbors enumerator.queryGraph right exclusion
    if neighbors = [] then some state
    else do
      let subsets := getAllNeighborSets enumerator.relationCount neighbors
      let unionSets := subsets.map (right ∪ ·)
      let visited ← subsets.foldlM
        (fun state subset => visitCmp enumerator left right subset state) state
      let nextExclusion := exclusion ∪ maskFromRelations neighbors
      unionSets.foldlM (fun state unionSet => enumerateCmp fuel left unionSet nextExclusion state)
        visited

/-- The last loop of `EmitCSG`, over the neighbours still to come. -/
def emitNeighbors (node : RelationSet) : List Nat → RelationSet → EnumeratorState Cost Stats →
    Option (EnumeratorState Cost Stats)
  | [], _, state => some state
  | neighbor :: rest, nextExclusion, state => do
    let emitted :=
      if getConnections enumerator.queryGraph node {neighbor} ≠ [] then
        tryEmitPair enumerator.model enumerator.queryGraph node {neighbor} state
      else state
    let enumerated ← enumerateCmp enumerator (enumerator.relationCount + 1) node {neighbor}
      nextExclusion emitted
    emitNeighbors node rest (nextExclusion.erase neighbor) enumerated

/-- `EmitCSG`. -/
def emitCSG (node : RelationSet) (state : EnumeratorState Cost Stats) :
    Option (EnumeratorState Cost Stats) :=
  if node.card = enumerator.subsetMask.card then some state
  else
    let exclusion := lowerRelationsMask enumerator (lowestRelationIndex node) ∪ node
    let neighbors := getNeighbors enumerator.queryGraph node exclusion
    if neighbors = [] then some state
    else
      let descending := neighbors.insertionSort (· ≥ ·)
      emitNeighbors enumerator node descending (exclusion ∪ maskFromRelations descending) state

/-- One subset in the first loop of `EnumerateCSGRecursive`. -/
def visitCSG (node subset : RelationSet) (state : EnumeratorState Cost Stats) :
    Option (EnumeratorState Cost Stats) :=
  let newSet := node ∪ subset
  if newSet = node then none
  else if state.plans newSet ≠ none then emitCSG enumerator newSet state
  else some state

/-- `EnumerateCSGRecursive`. -/
def enumerateCSGRecursive : Nat → (node exclusion : RelationSet) →
    EnumeratorState Cost Stats → Option (EnumeratorState Cost Stats)
  | 0, _, _, _ => none
  | fuel + 1, node, exclusion, state =>
    let neighbors := getNeighbors enumerator.queryGraph node exclusion
    if neighbors = [] then some state
    else do
      let subsets := getAllNeighborSets enumerator.relationCount neighbors
      let unionSets := subsets.map (node ∪ ·)
      let visited ← subsets.foldlM
        (fun state subset => visitCSG enumerator node subset state) state
      let nextExclusion := exclusion ∪ maskFromRelations neighbors
      unionSets.foldlM (fun state unionSet => enumerateCSGRecursive fuel unionSet nextExclusion state)
        visited

/-- The loop of `SolveJoinOrderExactly`, for the seeds below `idx`. -/
def solveFrom : Nat → EnumeratorState Cost Stats → Option (EnumeratorState Cost Stats)
  | 0, state => some state
  | idx + 1, state =>
    if idx ∉ enumerator.subsetMask then solveFrom idx state
    else do
      let seed : RelationSet := {idx}
      let emitted ← emitCSG enumerator seed state
      let exclusion := lowerRelationsMask enumerator (idx + 1)
      let enumerated ← enumerateCSGRecursive enumerator (enumerator.relationCount + 1) seed
        exclusion emitted
      solveFrom idx enumerated

/-- `SolveJoinOrderExactly`, after `Build`. -/
def solveJoinOrderExactly (state : EnumeratorState Cost Stats) :
    Option (EnumeratorState Cost Stats) :=
  solveFrom enumerator enumerator.relationCount state

/-- `InitializeLeafPlans`, for relations with the given cardinalities and statistics. -/
def initializeLeafPlans (cardinality : Nat → Nat) (stats : Nat → Stats) :
    EnumeratorState Cost Stats :=
  (List.range enumerator.relationCount).foldl
    (fun state idx =>
      if idx ∉ enumerator.subsetMask then state
      else
        let set : RelationSet := {idx}
        let node : JoinOrderDPJoinNode Cost :=
          ⟨set, none, true, set, set, enumerator.model.zeroCost, cardinality idx⟩
        { state with
          plans := Function.update state.plans set (some node)
          dpStats := Function.update state.dpStats set (some (stats idx)) })
    ⟨fun _ => none, fun _ => none, []⟩

end JoinEnumeration
end PgYaap
