import PgYaap.BagJoins
import PgYaap.ExpressionEvaluation

/-! # The meaning of logical plans

The rows of an operator over any database. A row gives a value to the columns in scope and NULL
to every other column. What windows, limits and the sides of a dependent join make of their
input is left open, and so are constants, functions and aggregates. -/
namespace PgYaap
namespace PlanMeaning

open LogicalPlan Expression ExpressionEvaluation ThreeValuedLogic BagJoins
open scoped Classical

/-! ## Columns in scope -/

/-- The columns that the expressions above an operator can refer to. -/
def inScope : LogicalOperator → ColumnBinding → Bool
  | .get g, c => c.tableIndex = g.tableIndex ∧
    (g.projectedColumns = [] ∨ c.columnIndex ∈ g.projectedColumns)
  | .filter _ child, c => inScope child c
  | .projection tableIndex expressions _, c =>
    c.tableIndex = tableIndex ∧ c.columnIndex < expressions.length
  | .aggregate groupIndex aggregateIndex groups expressions _, c =>
    c.tableIndex = groupIndex ∧ c.columnIndex < groups.length ∨
      c.tableIndex = aggregateIndex ∧ c.columnIndex < expressions.length
  | .distinct expressions child, c => inScope child c && expressions.any fun
    | .columnRef binding => binding = c
    | _ => false
  | .setOperation tableIndex _ _ _, c => c.tableIndex = tableIndex
  | .crossProduct left right, c => inScope left c || inScope right c
  | .join join left right, c =>
    match join.joinType with
    | .semi | .anti => inScope left c
    | .mark => inScope left c || (join.hasMarkIndex && c.tableIndex = join.markIndex)
    | _ => inScope left c || inScope right c
  | .delimGet tableIndex _, c => c.tableIndex = tableIndex
  | .order _ child, c => inScope child c
  | .window tableIndex _ _ _ child, c => inScope child c || c.tableIndex = tableIndex
  | .limit _ _ child, c => inScope child c

/-! ## Rows -/

variable {V : Type}

/-- The order that the rows of an operator come in, as far as a LIMIT above can use it. -/
def sortOf : LogicalOperator → List Expression
  | .filter _ child => sortOf child
  | .projection _ _ child => sortOf child
  | .order orders _ => orders
  | .limit _ _ child => sortOf child
  | _ => []

/-- What the parts of a plan mean. -/
structure PlanInterpretation (V : Type) extends Interpretation V where
  /-- The rows of a table. -/
  table : Nat → Multiset (Nat → Option V)
  /-- An aggregate expression on the rows of a group. -/
  aggregateOf : Expression → Multiset (Env V) → Option V
  /-- The column that a set operation reads for one of its own, on its left or its right. -/
  unionColumn : Nat → Bool → Nat → ColumnBinding
  window : Nat → List String → List Expression → List Expression → Multiset (Env V) →
    Multiset (Env V)
  limit : Option Expression → Option Expression → List Expression → Multiset (Env V) →
    Multiset (Env V)
  delimGet : Nat → List ColumnBinding → Multiset (Env V)
  dependentJoin : LogicalJoin → Multiset (Env V) → Multiset (Env V) → Multiset (Env V)

/-- All of the conditions are true. -/
def Holds (I : Interpretation V) (row : Env V) (conditions : List Expression) : Prop :=
  ∀ e ∈ conditions, truthOf I row e = some true

/-- The row without any value. -/
def nullRow : Env V := fun _ => none

/-- Two rows side by side; `left` says which columns are those of the first. -/
def pair (left : ColumnBinding → Bool) (a b : Env V) : Env V := fun c =>
  if left c then a c else b c

/-- What of a row is in scope. -/
def restrict (scope : ColumnBinding → Bool) (a : Env V) : Env V := fun c =>
  if scope c then a c else none

/-- The row of a table as the expressions of its scan see it. -/
def tableRow (g : LogicalGet) (t : Nat → Option V) : Env V := fun c =>
  if c.tableIndex = g.tableIndex then t c.columnIndex else none

/-- The row of a projection. -/
def projectRow (I : Interpretation V) (tableIndex : Nat) (expressions : List Expression)
    (row : Env V) : Env V := fun c =>
  if c.tableIndex = tableIndex then
    (expressions[c.columnIndex]?).bind (value I row)
  else none

/-- The row of a group: its key and its aggregates. -/
def groupRow (I : PlanInterpretation V) (groupIndex aggregateIndex : Nat)
    (expressions : List Expression) (group : List (Option V) × Multiset (Env V)) : Env V := fun c =>
  if c.tableIndex = groupIndex then (group.1[c.columnIndex]?).join
  else if c.tableIndex = aggregateIndex then
    (expressions[c.columnIndex]?).bind fun e => I.aggregateOf e group.2
  else none

/-- The row of a set operation, from one of its sides. -/
def unionRow (I : PlanInterpretation V) (tableIndex : Nat) (side : Bool) (row : Env V) : Env V :=
  fun c => if c.tableIndex = tableIndex then row (I.unionColumn tableIndex side c.columnIndex)
  else none

/-- The disjunction over all rows. -/
noncomputable def someTruth (ts : Multiset Truth) : Truth :=
  if some true ∈ ts then some true else if none ∈ ts then none else some false

/-- A left row of a MARK join with its marker. -/
noncomputable def markRow (I : PlanInterpretation V) (join : LogicalJoin) (left : ColumnBinding → Bool)
    (r : Multiset (Env V)) (a : Env V) : Env V := fun c =>
  if join.hasMarkIndex ∧ c.tableIndex = join.markIndex then
    I.ofTruth (someTruth (r.map fun b =>
      allOf (join.conditions.map (truthOf I.toInterpretation (pair left a b)))))
  else a c

/-- The rows of a comparison join. -/
noncomputable def joinRows (I : PlanInterpretation V) (join : LogicalJoin)
    (left : ColumnBinding → Bool) (l r : Multiset (Env V)) : Multiset (Env V) :=
  let on := fun a b => Holds I.toInterpretation (pair left a b) join.conditions
  match join.joinType with
  | .inner => innerJoin on (pair left) l r
  | .left | .single => outerJoin on (pair left) (fun a => pair left a nullRow) l r
  | .right => outerJoin (fun b a => on a b) (fun b a => pair left a b) (pair left nullRow) r l
  | .full => outerJoin on (pair left) (fun a => pair left a nullRow) l r +
    (antiJoin (fun b a => on a b) r l).map (pair left nullRow)
  | .semi => semiJoin on l r
  | .anti => antiJoin on l r
  | .mark => l.map (markRow I join left r)

/-- **The rows of a plan.** -/
noncomputable def rows (I : PlanInterpretation V) : LogicalOperator → Multiset (Env V)
  | .get g => (keep (fun row => Holds I.toInterpretation row g.filters)
      ((I.table g.relid).map (tableRow g))).map (restrict (inScope (.get g)))
  | .filter expressions child =>
    keep (fun row => Holds I.toInterpretation row expressions) (rows I child)
  | .projection tableIndex expressions child =>
    (rows I child).map (projectRow I.toInterpretation tableIndex expressions)
  | .aggregate groupIndex aggregateIndex groupExpressions expressions child =>
    if groupExpressions.isEmpty then
      {groupRow I groupIndex aggregateIndex expressions ([], rows I child)}
    else (groups (fun row => groupExpressions.map (value I.toInterpretation row)) (rows I child)).map
      (groupRow I groupIndex aggregateIndex expressions)
  | .distinct expressions child =>
    ((rows I child).map (restrict (inScope (.distinct expressions child)))).dedup
  | .setOperation tableIndex all left right =>
    let both := (rows I left).map (unionRow I tableIndex true) +
      (rows I right).map (unionRow I tableIndex false)
    if all then both else both.dedup
  | .crossProduct left right =>
    innerJoin (fun _ _ => True) (pair (inScope left)) (rows I left) (rows I right)
  | .join join left right =>
    if join.operator = .comparisonJoin then
      joinRows I join (inScope left) (rows I left) (rows I right)
    else I.dependentJoin join (rows I left) (rows I right)
  | .delimGet tableIndex correlatedColumns => I.delimGet tableIndex correlatedColumns
  | .order _ child => rows I child
  | .window tableIndex functionNames partitions orders child =>
    I.window tableIndex functionNames partitions orders (rows I child)
  | .limit limitCount limitOffset child =>
    I.limit limitCount limitOffset (sortOf child) (rows I child)

/-! ## Conditions -/

section Conditions

variable {I : Interpretation V} {row row' : Env V}

theorem holds_nil : Holds I row [] := nofun

theorem holds_append {es fs : List Expression} :
    Holds I row (es ++ fs) ↔ Holds I row es ∧ Holds I row fs := by
  simp only [Holds, List.mem_append, or_imp, forall_and]

theorem holds_cons {e : Expression} {es : List Expression} :
    Holds I row (e :: es) ↔ truthOf I row e = some true ∧ Holds I row es :=
  List.forall_mem_cons

theorem holds_iff_allOf {es : List Expression} :
    Holds I row es ↔ allOf (es.map (truthOf I row)) = some true := by
  rw [allOf_eq_true, List.forall_mem_map]
  rfl

/-- Conditions read only their own columns. -/
theorem holds_congr {es : List Expression}
    (h : ∀ e ∈ es, ∀ b ∈ e.bindings, row b = row' b) : Holds I row es ↔ Holds I row' es := by
  refine forall₂_congr fun e he => ?_
  rw [truthOf, truthOf, value_congr e (h e he)]

end Conditions

/-! ## Joins -/

section Joins

variable {I : PlanInterpretation V} {join : LogicalJoin} {left right : LogicalOperator}

theorem rows_join (h : join.operator = .comparisonJoin) :
    rows I (.join join left right) =
      joinRows I join (inScope left) (rows I left) (rows I right) := by
  rw [rows, if_pos h]

theorem joinRows_inner (h : join.joinType = .inner) (scope : ColumnBinding → Bool)
    (l r : Multiset (Env V)) :
    joinRows I join scope l r = innerJoin (fun a b =>
      Holds I.toInterpretation (pair scope a b) join.conditions) (pair scope) l r := by
  simp only [joinRows, h]

end Joins

end PlanMeaning
end PgYaap
