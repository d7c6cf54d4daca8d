import Mathlib

/-! # Logical plans

Bound expressions and logical operators as the optimizer passes see them, and the walks
that all passes share: the columns and tables an expression refers to
(`CollectExpressionBindings`, `CollectReferencedTables`) and the tables an operator puts
out (`CollectOutputTables`). Cardinalities and output names are left out. -/
namespace PgYaap
namespace LogicalPlan

/-! ## Expressions -/

/-- `ColumnBinding`: a column of a table, by the index of the table in the query. -/
structure ColumnBinding where
  tableIndex : Nat
  columnIndex : Nat
  deriving DecidableEq

/-- The classes of bound expressions. `boolExprType` is 0 for AND, 1 for OR, 2 for NOT. -/
inductive Expression
  | columnRef (binding : ColumnBinding)
  | constant (value : String) (isNull : Bool)
  | function (functionName : String) (opOid : Int) (children : List Expression)
  | aggregate (functionName : String) (aggOid : Int) (isDistinct : Bool)
      (children : List Expression)
  | conjunction (boolExprType : Int) (children : List Expression)
  | subquery (sublinkType : Int) (sublinkName : String) (children : List Expression)
  | opaqueExpr

namespace Expression

mutual

/-- `CollectExpressionBindings`. -/
def bindings : Expression → Finset ColumnBinding
  | columnRef binding => {binding}
  | constant _ _ => ∅
  | function _ _ children => bindingsList children
  | aggregate _ _ _ children => bindingsList children
  | conjunction _ children => bindingsList children
  | subquery _ _ children => bindingsList children
  | opaqueExpr => ∅

/-- `CollectExpressionListBindings`. -/
def bindingsList : List Expression → Finset ColumnBinding
  | [] => ∅
  | e :: es => e.bindings ∪ bindingsList es

end

/-- `CollectReferencedTables`. -/
def referencedTables (e : Expression) : Finset Nat := e.bindings.image ColumnBinding.tableIndex

theorem mem_bindingsList {es : List Expression} {b : ColumnBinding} :
    b ∈ bindingsList es ↔ ∃ e ∈ es, b ∈ e.bindings := by
  induction es with
  | nil => simp [bindingsList]
  | cons e es ih => simp [bindingsList, ih]

end Expression

/-! ## Operators -/

/-- `JoinType`. -/
inductive JoinType
  | inner
  | left
  | full
  | right
  | semi
  | anti
  | mark
  | single
  deriving DecidableEq

/-- The three operators that are joins with conditions. -/
inductive JoinOperator
  | comparisonJoin
  | dependentJoin
  | delimJoin
  deriving DecidableEq

/-- The fields of `LogicalComparisonJoin` and `LogicalDependentJoin`. -/
structure LogicalJoin where
  operator : JoinOperator
  joinType : JoinType
  dependent : Bool
  markIndex : Nat
  hasMarkIndex : Bool
  convertMarkToSemi : Bool
  invertResult : Bool
  conditions : List Expression
  correlatedColumns : List ColumnBinding
  performDelim : Bool
  anyJoin : Bool

/-- `LogicalGet`; without projected columns a scan reads every column. -/
structure LogicalGet where
  tableIndex : Nat
  relid : Nat
  projectedColumns : List Nat
  filters : List Expression

/-- `LogicalOperator`. -/
inductive LogicalOperator
  | get (get : LogicalGet)
  | filter (expressions : List Expression) (child : LogicalOperator)
  | projection (tableIndex : Nat) (expressions : List Expression) (child : LogicalOperator)
  | aggregate (groupIndex aggregateIndex : Nat) (groups expressions : List Expression)
      (child : LogicalOperator)
  | distinct (expressions : List Expression) (child : LogicalOperator)
  | setOperation (tableIndex : Nat) (all : Bool) (left right : LogicalOperator)
  | crossProduct (left right : LogicalOperator)
  | join (join : LogicalJoin) (left right : LogicalOperator)
  | delimGet (tableIndex : Nat) (correlatedColumns : List ColumnBinding)
  | order (orders : List Expression) (child : LogicalOperator)
  | window (tableIndex : Nat) (functionNames : List String) (partitions orders : List Expression)
      (child : LogicalOperator)
  | limit (limitCount limitOffset : Option Expression) (child : LogicalOperator)

namespace LogicalOperator

/-- `CollectOutputTables`: the indexes of all tables an operator puts out, those below a
projection or an aggregate included. -/
def outputTables : LogicalOperator → Finset Nat
  | get g => {g.tableIndex}
  | filter _ child => child.outputTables
  | projection tableIndex _ child => insert tableIndex child.outputTables
  | aggregate groupIndex aggregateIndex _ _ child =>
    insert groupIndex (insert aggregateIndex child.outputTables)
  | distinct _ child => child.outputTables
  | setOperation tableIndex _ left right =>
    insert tableIndex (left.outputTables ∪ right.outputTables)
  | crossProduct left right => left.outputTables ∪ right.outputTables
  | join _ left right => left.outputTables ∪ right.outputTables
  | delimGet tableIndex _ => {tableIndex}
  | order _ child => child.outputTables
  | window tableIndex _ _ _ child => insert tableIndex child.outputTables
  | limit _ _ child => child.outputTables

end LogicalOperator

end LogicalPlan
end PgYaap
