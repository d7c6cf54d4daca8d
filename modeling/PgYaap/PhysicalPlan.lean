import PgYaap.LogicalPlan

/-! # Physical plans

The operators `PhysicalPlanGenerator` builds, and the columns each puts out as `CreatePlan`
fills `outputs`. Cardinalities, names of tables and columns and the storage of rewritten
expressions are left out. -/
namespace PgYaap
namespace PhysicalPlan

open LogicalPlan

/-- The fields of `PhysicalHashJoin`. -/
structure PhysicalHashJoin where
  joinType : JoinType
  dependent : Bool
  delimJoin : Bool
  markIndex : Nat
  hasMarkIndex : Bool
  invertResult : Bool
  correlatedColumns : List ColumnBinding
  conditions : List Expression

/-- `PhysicalOperator`. -/
inductive PhysicalOperator
  | tableScan (tableIndex relid : Nat) (projectedColumns : List Nat) (filters : List Expression)
  | projection (tableIndex : Nat) (selectList : List Expression) (child : PhysicalOperator)
  | filter (expressions : List Expression) (child : PhysicalOperator)
  | distinct (expressions : List Expression) (child : PhysicalOperator)
  | setOperation (tableIndex : Nat) (all : Bool) (outputNames : List String)
      (left right : PhysicalOperator)
  | limit (limitCount limitOffset : Option Expression) (child : PhysicalOperator)
  | window (tableIndex : Nat) (functionNames : List String) (partitions orders : List Expression)
      (child : PhysicalOperator)
  | hashJoin (join : PhysicalHashJoin) (left right : PhysicalOperator)
  | delimScan (tableIndex : Nat) (correlatedColumns : List ColumnBinding)
  | crossProduct (left right : PhysicalOperator)
  | hashGroupBy (groupIndex aggregateIndex : Nat) (groups expressions : List Expression)
      (child : PhysicalOperator)
  | orderBy (orders : List Expression) (child : PhysicalOperator)

/-- The first `n` columns of a table. -/
def columnsOf (tableIndex n : Nat) : List ColumnBinding :=
  (List.range n).map (ColumnBinding.mk tableIndex)

namespace PhysicalOperator

/-- `outputs`. -/
def outputs : PhysicalOperator → List ColumnBinding
  | tableScan tableIndex _ projectedColumns _ => projectedColumns.map (ColumnBinding.mk tableIndex)
  | projection tableIndex selectList _ => columnsOf tableIndex selectList.length
  | filter _ child => child.outputs
  | distinct _ child => child.outputs
  | setOperation tableIndex _ outputNames _ _ => columnsOf tableIndex outputNames.length
  | limit _ _ child => child.outputs
  | window tableIndex functionNames _ _ child =>
    child.outputs ++ columnsOf tableIndex functionNames.length
  | hashJoin join left right =>
    left.outputs ++
      (if join.joinType = .semi ∨ join.joinType = .anti then [] else right.outputs) ++
      if join.hasMarkIndex then [⟨join.markIndex, 0⟩] else []
  | delimScan tableIndex correlatedColumns => columnsOf tableIndex correlatedColumns.length
  | crossProduct left right => left.outputs ++ right.outputs
  | hashGroupBy groupIndex aggregateIndex groups expressions _ =>
    columnsOf groupIndex groups.length ++ columnsOf aggregateIndex expressions.length
  | orderBy _ child => child.outputs

end PhysicalOperator

end PhysicalPlan
end PgYaap
