import PgYaap.ExpressionClones

/-! # The produced columns of an aggregate

The adapter makes one aggregate node of the GROUP BY keys and of the aggregate calls of a query,
and rewrites the expressions above it so that they read the columns that the node produces. Calls
and keys are told apart by a text of the expression. The rewriting is compared with the
replacement of each group key and each call by the column that computes it. -/
namespace PgYaap
namespace ProducedColumns

open LogicalPlan (ColumnBinding)
open ExpressionClones (Expression)

variable {Plan : Type}

/-! ## Texts of expressions -/

mutual

/-- `ExpressionSemanticKey`. -/
def expressionSemanticKey : Expression Plan → String
  | .null => "<null>"
  | .columnRef _ tableName columnName => "col:" ++ tableName ++ "." ++ columnName
  | .constant value isNull => "const:" ++ if isNull then "NULL" else value
  | .function functionName _ children =>
    "fn:" ++ functionName ++ "(" ++ ",".intercalate (semanticKeys children) ++ ")"
  | .aggregate functionName _ _ children =>
    "agg:" ++ functionName ++ "(" ++ ",".intercalate (semanticKeys children) ++ ")"
  | .conjunction boolExprType children =>
    "conj:" ++ toString boolExprType ++ "(" ++ ",".intercalate (semanticKeys children) ++ ")"
  | .subquery _ sublinkName _ children =>
    "subquery:" ++ sublinkName ++ "(" ++ ",".intercalate (semanticKeys children) ++ ")"

def semanticKeys : List (Expression Plan) → List String
  | [] => []
  | e :: es => expressionSemanticKey e :: semanticKeys es

end

def derivedColumnName (expression : Expression Plan) (index : Nat) : String :=
  match expression with
  | .columnRef _ _ columnName => columnName
  | .aggregate functionName _ _ _ => functionName
  | .constant _ _ => "const"
  | _ => "col" ++ toString (index + 1)

def derivedTableName (expression : Expression Plan) (fallback : String) : String :=
  match expression with
  | .columnRef _ tableName _ => tableName
  | _ => fallback

/-! ## What the operators produce -/

structure LogicalAggregate (Plan : Type) where
  groupIndex : Nat
  aggregateIndex : Nat
  groups : List (Expression Plan)
  groupNames : List String
  expressions : List (Expression Plan)
  aggregateNames : List String

/-- The operators as far as their columns go. Filters, DISTINCT, orders and limits are
transparent. -/
inductive LogicalOperator (Plan : Type)
  | transparent (child : LogicalOperator Plan)
  | projection (tableIndex : Nat) (expressions : List (Expression Plan)) (outputNames : List String)
  | aggregate (aggregate : LogicalAggregate Plan)
  | window (tableIndex : Nat) (functionNames outputNames : List String)
  | setOperation (tableIndex : Nat) (outputNames : List String) (left right : LogicalOperator Plan)
  | delimGet (tableIndex correlatedColumns : Nat) (outputNames : List String)
  | join (markIndex : Option Nat) (left right : LogicalOperator Plan)
  | other

def skipTransparentOperators : LogicalOperator Plan → LogicalOperator Plan
  | .transparent child => skipTransparentOperators child
  | input => input

structure ProducedOutput where
  binding : ColumnBinding
  name : String
  semanticKey : String
  tableName : String
  sourceBinding : Option ColumnBinding

/-- `MakeProducedOutput` with a source expression. -/
def makeProducedOutput (binding : ColumnBinding) (tableName name : String)
    (source : Expression Plan) : ProducedOutput where
  binding := binding
  name := name
  semanticKey := expressionSemanticKey source
  tableName := tableName
  sourceBinding := match source with
    | .columnRef binding _ _ => some binding
    | _ => none

/-- `MakeProducedOutput` without one. -/
def makePlainOutput (binding : ColumnBinding) (tableName name : String) : ProducedOutput :=
  ⟨binding, name, "", tableName, none⟩

def collectProducedOutputs : LogicalOperator Plan → List ProducedOutput
  | .transparent child => collectProducedOutputs child
  | .projection tableIndex expressions outputNames =>
    expressions.mapIdx fun idx source =>
      makeProducedOutput ⟨tableIndex, idx⟩ (derivedTableName source "proj")
        (outputNames[idx]?.getD ("col" ++ toString (idx + 1))) source
  | .aggregate aggregate =>
    (aggregate.groups.mapIdx fun idx source =>
      makeProducedOutput ⟨aggregate.groupIndex, idx⟩ (derivedTableName source "group")
        (aggregate.groupNames[idx]?.getD ("group" ++ toString (idx + 1))) source) ++
    aggregate.expressions.mapIdx fun idx source =>
      makeProducedOutput ⟨aggregate.aggregateIndex, idx⟩ "agg"
        (aggregate.aggregateNames[idx]?.getD ("agg" ++ toString (idx + 1))) source
  | .window _ _ _ => []
  | .setOperation tableIndex outputNames _ _ =>
    outputNames.mapIdx fun idx name => makePlainOutput ⟨tableIndex, idx⟩ "setop" name
  | .delimGet tableIndex correlatedColumns outputNames =>
    (List.range correlatedColumns).map fun idx =>
      makePlainOutput ⟨tableIndex, idx⟩ "delim"
        (outputNames[idx]?.getD ("delim" ++ toString (idx + 1)))
  | .join markIndex left right =>
    collectProducedOutputs left ++ collectProducedOutputs right ++
      (markIndex.map fun index => makePlainOutput ⟨index, 0⟩ "subquery" "mark").toList
  | .other => []

/-! ## The rewriting -/

/-- The one output with a property, where there is exactly one. -/
def findUnique (p : ProducedOutput → Bool) (outputs : List ProducedOutput) :
    Option ProducedOutput :=
  match outputs.filter p with
  | [output] => some output
  | _ => none

def columnOfOutput (output : ProducedOutput) : Expression Plan :=
  .columnRef output.binding (if output.tableName = "" then "output" else output.tableName)
    output.name

def tryRewriteToProducedOutput (input : LogicalOperator Plan) (expression : Expression Plan)
    (fingerprint : String) : Option (Expression Plan) :=
  let outputs := collectProducedOutputs input
  let byBinding := match expression with
    | .columnRef binding _ _ =>
      (findUnique (fun output => output.binding = binding) outputs).orElse fun _ =>
        findUnique (fun output => output.sourceBinding = some binding) outputs
    | _ => none
  (byBinding.orElse fun _ =>
    findUnique (fun output => output.semanticKey ≠ "" ∧ output.semanticKey = fingerprint)
      outputs).map columnOfOutput

/-- The first expression of a list with a text. -/
def findKey (expressions : List (Expression Plan)) (fingerprint : String) : Option Nat :=
  expressions.findIdx? fun source => expressionSemanticKey source = fingerprint

def searchProjection (tableIndex : Nat) (expressions : List (Expression Plan))
    (outputNames : List String) (fingerprint : String) : Option (Expression Plan) :=
  (findKey expressions fingerprint).map fun idx =>
    .columnRef ⟨tableIndex, idx⟩ "proj"
      (outputNames[idx]?.getD (derivedColumnName (expressions.getD idx .null) idx))

/-- The column of a group key. Its table name is read as that of a column reference, whatever the
key is; for another expression the outcome is undefined, `none`. -/
def groupColumn (aggregate : LogicalAggregate Plan) (idx : Nat) : Option (Expression Plan) :=
  match aggregate.groups[idx]? with
  | some (.columnRef _ tableName columnName) =>
    some (.columnRef ⟨aggregate.groupIndex, idx⟩ tableName
      (aggregate.groupNames[idx]?.getD columnName))
  | _ => none

/-- The column of an aggregate call. -/
def callColumn (aggregate : LogicalAggregate Plan) (idx : Nat) : Expression Plan :=
  .columnRef ⟨aggregate.aggregateIndex, idx⟩ "agg"
    (aggregate.aggregateNames[idx]?.getD
      (derivedColumnName (aggregate.expressions.getD idx .null) idx))

def searchWindow (tableIndex : Nat) (functionNames outputNames : List String)
    (expression : Expression Plan) : Option (Expression Plan) :=
  match expression with
  | .function functionName _ [] =>
    (functionNames.findIdx? fun name => name = functionName).map fun idx =>
      .columnRef ⟨tableIndex, idx⟩ "window"
        (outputNames[idx]?.getD ("window" ++ toString (idx + 1)))
  | _ => none

/-- A column of a set operation, by the binding of a column of its inputs or by their names. -/
def searchSetOperation (tableIndex : Nat) (outputNames : List String)
    (left right : List ProducedOutput) (expression : Expression Plan) (fingerprint : String) :
    Option (Expression Plan) :=
  let column idx := Expression.columnRef ⟨tableIndex, idx⟩ "setop" (outputNames.getD idx "")
  let byBinding := match expression with
    | .columnRef binding _ _ =>
      (List.range outputNames.length).find? fun idx =>
        (left[idx]?.any fun (output : ProducedOutput) => output.binding = binding) ||
          (right[idx]?.any fun (output : ProducedOutput) => output.binding = binding)
    | _ => none
  let nameKey (output : ProducedOutput) := "col:" ++ "setop_child" ++ "." ++ output.name
  let byName := (List.range (min left.length outputNames.length)).find? fun idx =>
    (left[idx]?.any fun output => nameKey output = fingerprint) ||
      (right[idx]?.any fun output => nameKey output = fingerprint)
  (byBinding.orElse fun _ => byName).map column

/-- The search for the column of an expression whose children are rewritten: `none` where the
outcome is undefined, `some none` where there is no column. -/
def searchProduced (input : LogicalOperator Plan) (expression : Expression Plan) :
    Option (Option (Expression Plan)) :=
  let input := skipTransparentOperators input
  let fingerprint := expressionSemanticKey expression
  let fallback := tryRewriteToProducedOutput input expression fingerprint
  match input with
  | .projection tableIndex expressions outputNames =>
    some ((searchProjection tableIndex expressions outputNames fingerprint).orElse fun _ => fallback)
  | .aggregate aggregate =>
    match findKey aggregate.groups fingerprint with
    | some idx => (groupColumn aggregate idx).map some
    | none =>
      match findKey aggregate.expressions fingerprint with
      | some idx => some (some (callColumn aggregate idx))
      | none => some fallback
  | .window tableIndex functionNames outputNames =>
    some ((searchWindow tableIndex functionNames outputNames expression).orElse fun _ => fallback)
  | .setOperation tableIndex outputNames left right =>
    some ((searchSetOperation tableIndex outputNames (collectProducedOutputs left)
      (collectProducedOutputs right) expression fingerprint).orElse fun _ => fallback)
  | _ => some fallback

/-- What the search puts in place of an expression. -/
def resolve (input : LogicalOperator Plan) (expression : Expression Plan) :
    Option (Expression Plan) :=
  (searchProduced input expression).map fun found => found.getD expression

mutual

/-- `RewriteToProducedBinding`; `none` where the outcome is undefined. -/
def rewriteToProducedBinding (input : LogicalOperator Plan) :
    Expression Plan → Option (Expression Plan)
  | .null => some .null
  | .columnRef binding tableName columnName =>
    resolve input (.columnRef binding tableName columnName)
  | .constant value isNull => resolve input (.constant value isNull)
  | .function functionName opOid children =>
    (rewriteChildren input children).bind fun children =>
      resolve input (.function functionName opOid children)
  | .aggregate functionName aggOid isDistinct children =>
    (rewriteChildren input children).bind fun children =>
      resolve input (.aggregate functionName aggOid isDistinct children)
  | .conjunction boolExprType children =>
    (rewriteChildren input children).bind fun children =>
      resolve input (.conjunction boolExprType children)
  | .subquery sublinkType sublinkName subqueryPlan children =>
    (rewriteChildren input children).bind fun children =>
      resolve input (.subquery sublinkType sublinkName subqueryPlan children)

def rewriteChildren (input : LogicalOperator Plan) :
    List (Expression Plan) → Option (List (Expression Plan))
  | [] => some []
  | e :: es =>
    (rewriteToProducedBinding input e).bind fun e =>
      (rewriteChildren input es).map fun es => e :: es

end

/-! ## The translation of a query -/

structure TargetEntry (Plan : Type) where
  expr : Expression Plan
  resjunk : Bool
  resname : Option String

/-- The window functions of a query. -/
structure WindowClause (Plan : Type) where
  functionNames : List String
  outputNames : List String
  partitions : List (Expression Plan)
  orders : List (Expression Plan)

/-- A query as far as its aggregates go, with its expressions translated. GROUP BY and ORDER BY
refer to entries of the target list. -/
structure Query (Plan : Type) where
  targetList : List (TargetEntry Plan)
  groupClause : List Nat
  havingQual : Option (Expression Plan)
  window : Option (WindowClause Plan)
  sortClause : List Nat

mutual

/-- The aggregate calls of an expression, outside of its subqueries. -/
def collectAggregates : Expression Plan → List (Expression Plan)
  | .aggregate functionName aggOid isDistinct children =>
    [.aggregate functionName aggOid isDistinct children]
  | .function _ _ children => collectChildren children
  | .conjunction _ children => collectChildren children
  | _ => []

def collectChildren : List (Expression Plan) → List (Expression Plan)
  | [] => []
  | e :: es => collectAggregates e ++ collectChildren es

end

/-- `CollectQueryAggregates`: what only ORDER BY asks for is left out. -/
def collectQueryAggregates (query : Query Plan) : List (Expression Plan) :=
  (query.targetList.filter fun entry => !entry.resjunk).flatMap
      (fun entry => collectAggregates entry.expr) ++
    query.havingQual.toList.flatMap collectAggregates

/-- The calls that get a column: the first of every text. -/
def firstOfKeys (calls : List (Expression Plan)) : List (Expression Plan) :=
  calls.foldl (fun expressions call =>
    if expressions.any fun e => expressionSemanticKey e = expressionSemanticKey call
    then expressions else expressions ++ [call]) []

def translateAggregate (query : Query Plan) (groupIndex aggregateIndex : Nat) :
    LogicalAggregate Plan :=
  let entries := query.groupClause.filterMap fun ref => query.targetList[ref]?
  let expressions := firstOfKeys (collectQueryAggregates query)
  { groupIndex := groupIndex
    aggregateIndex := aggregateIndex
    groups := entries.map TargetEntry.expr
    groupNames := entries.mapIdx fun idx entry =>
      entry.resname.getD (derivedColumnName entry.expr idx)
    expressions := expressions
    aggregateNames := expressions.mapIdx fun idx e => derivedColumnName e idx }

/-- An expression with the operator over whose columns it is rewritten. -/
abbrev Use (Plan : Type) := LogicalOperator Plan × Expression Plan

/-- Subqueries are promoted to joins below before an expression is rewritten; the promotion of
one expression may change the input of the next. -/
def promoteAll (promote : LogicalOperator Plan → Expression Plan → Use Plan) :
    LogicalOperator Plan → List (Expression Plan) → LogicalOperator Plan × List (Use Plan)
  | input, [] => (input, [])
  | input, e :: es =>
    let use := promote input e
    let rest := promoteAll promote use.1 es
    (rest.1, use :: rest.2)

/-- The table indexes that the translation of a query draws. -/
structure Indexes where
  group : Nat
  aggregate : Nat
  window : Nat
  projection : Nat

section Translation

variable (promote : LogicalOperator Plan → Expression Plan → Use Plan) (query : Query Plan)
  (indexes : Indexes)

/-- The aggregate node of the query. -/
def aggregateOf : LogicalAggregate Plan :=
  translateAggregate query indexes.group indexes.aggregate

/-- `TranslateHaving`: the input of what comes after it, and its use of the aggregate. -/
def translateHaving : LogicalOperator Plan × List (Use Plan) :=
  match query.havingQual with
  | none => (.aggregate (aggregateOf query indexes), [])
  | some having =>
    let use := promote (.aggregate (aggregateOf query indexes)) having
    (.transparent use.1, [use])

/-- `TranslateWindow`. -/
def translateWindow : LogicalOperator Plan × List (Use Plan) :=
  let having := translateHaving promote query indexes
  match query.window with
  | none => (having.1, [])
  | some window =>
    (.window indexes.window window.functionNames window.outputNames,
      (promoteAll promote having.1 (window.partitions ++ window.orders)).2)

/-- The select list. -/
def outputEntries : List (TargetEntry Plan) := query.targetList.filter fun entry => !entry.resjunk

/-- The names of the select list over its expressions. -/
def outputNames (expressions : List (Expression Plan)) : List String :=
  List.zipWith (fun (entry : TargetEntry Plan) named => entry.resname.getD named)
    (outputEntries query) (expressions.mapIdx fun idx e => derivedColumnName e idx)

/-- The uses of `TranslateProjection`. -/
def projectionUses : List (Use Plan) :=
  (promoteAll promote (translateWindow promote query indexes).1
    ((outputEntries query).map TargetEntry.expr)).2

/-- The uses of HAVING, of the windows and of the select list. -/
def aggregateUses : List (Use Plan) :=
  (translateHaving promote query indexes).2 ++ (translateWindow promote query indexes).2 ++
    projectionUses promote query indexes

/-- `TranslateProjection`; `none` where the outcome is undefined. -/
def translateProjection : Option (LogicalOperator Plan) := do
  let expressions ← (projectionUses promote query indexes).mapM fun use =>
    rewriteToProducedBinding use.1 use.2
  return .projection indexes.projection expressions (outputNames query expressions)

/-- The entries that ORDER BY asks for beyond the select list; those of the select list are found
by their position. -/
def orderUses (projection : LogicalOperator Plan) : List (Use Plan) :=
  (promoteAll promote projection
    (((query.sortClause.filterMap fun ref => query.targetList[ref]?).filter
      TargetEntry.resjunk).map TargetEntry.expr)).2

end Translation

/-! ## What is to be produced -/

mutual

/-- An expression with its subexpressions. -/
def subexpressions : Expression Plan → List (Expression Plan)
  | .null => []
  | .columnRef binding tableName columnName => [.columnRef binding tableName columnName]
  | .constant value isNull => [.constant value isNull]
  | .function functionName opOid children =>
    .function functionName opOid children :: subexpressionsOf children
  | .aggregate functionName aggOid isDistinct children =>
    .aggregate functionName aggOid isDistinct children :: subexpressionsOf children
  | .conjunction boolExprType children =>
    .conjunction boolExprType children :: subexpressionsOf children
  | .subquery sublinkType sublinkName subqueryPlan children =>
    .subquery sublinkType sublinkName subqueryPlan children :: subexpressionsOf children

def subexpressionsOf : List (Expression Plan) → List (Expression Plan)
  | [] => []
  | e :: es => subexpressions e ++ subexpressionsOf es

end

section Expected

variable (produced : Expression Plan → Option (Expression Plan))

mutual

/-- An expression with what is produced replaced by its column. -/
def expected : Expression Plan → Expression Plan
  | .null => .null
  | .columnRef binding tableName columnName =>
    (produced (.columnRef binding tableName columnName)).getD
      (.columnRef binding tableName columnName)
  | .constant value isNull => (produced (.constant value isNull)).getD (.constant value isNull)
  | .function functionName opOid children =>
    (produced (.function functionName opOid children)).getD
      (.function functionName opOid (expectedChildren children))
  | .aggregate functionName aggOid isDistinct children =>
    (produced (.aggregate functionName aggOid isDistinct children)).getD
      (.aggregate functionName aggOid isDistinct (expectedChildren children))
  | .conjunction boolExprType children =>
    (produced (.conjunction boolExprType children)).getD
      (.conjunction boolExprType (expectedChildren children))
  | .subquery sublinkType sublinkName subqueryPlan children =>
    (produced (.subquery sublinkType sublinkName subqueryPlan children)).getD
      (.subquery sublinkType sublinkName subqueryPlan (expectedChildren children))

def expectedChildren : List (Expression Plan) → List (Expression Plan)
  | [] => []
  | e :: es => expected e :: expectedChildren es

end

/-- An expression with what is produced replaced below its root only. -/
def replacedBelow : Expression Plan → Expression Plan
  | .function functionName opOid children =>
    .function functionName opOid (expectedChildren produced children)
  | .aggregate functionName aggOid isDistinct children =>
    .aggregate functionName aggOid isDistinct (expectedChildren produced children)
  | .conjunction boolExprType children =>
    .conjunction boolExprType (expectedChildren produced children)
  | .subquery sublinkType sublinkName subqueryPlan children =>
    .subquery sublinkType sublinkName subqueryPlan (expectedChildren produced children)
  | e => e

variable (needed : Expression Plan → Prop)

mutual

/-- Everything that has to be replaced has a column, or is part of something that has one. -/
def Covered : Expression Plan → Prop
  | .null => True
  | .columnRef binding tableName columnName =>
    (produced (.columnRef binding tableName columnName)).isSome = true ∨
      ¬ needed (.columnRef binding tableName columnName)
  | .constant value isNull =>
    (produced (.constant value isNull)).isSome = true ∨ ¬ needed (.constant value isNull)
  | .function functionName opOid children =>
    (produced (.function functionName opOid children)).isSome = true ∨
      ¬ needed (.function functionName opOid children) ∧ CoveredAll children
  | .aggregate functionName aggOid isDistinct children =>
    (produced (.aggregate functionName aggOid isDistinct children)).isSome = true ∨
      ¬ needed (.aggregate functionName aggOid isDistinct children) ∧ CoveredAll children
  | .conjunction boolExprType children =>
    (produced (.conjunction boolExprType children)).isSome = true ∨
      ¬ needed (.conjunction boolExprType children) ∧ CoveredAll children
  | .subquery sublinkType sublinkName subqueryPlan children =>
    (produced (.subquery sublinkType sublinkName subqueryPlan children)).isSome = true ∨
      ¬ needed (.subquery sublinkType sublinkName subqueryPlan children) ∧ CoveredAll children

def CoveredAll : List (Expression Plan) → Prop
  | [] => True
  | e :: es => Covered e ∧ CoveredAll es

end

/-- **A use is resolved**: all that has to be replaced has a column, and each of the
subexpressions is rewritten to itself with what is produced replaced. -/
def Resolved (use : Use Plan) : Prop :=
  Covered produced needed use.2 ∧ ∀ e ∈ subexpressions use.2,
    rewriteToProducedBinding use.1 e = some (expected produced e)

/-- **The columns are found**: all that has to be replaced has a column, and for each of the
subexpressions, with what is produced replaced below it, the search by text and by binding puts
the column in its place if it has one, and leaves it if it has none. -/
def Found (use : Use Plan) : Prop :=
  Covered produced needed use.2 ∧ ∀ e ∈ subexpressions use.2,
    resolve use.1 (replacedBelow produced e) = some (expected produced e)

end Expected

/-! ## Resolution -/

section Resolution

variable {produced : Expression Plan → Option (Expression Plan)} {input : LogicalOperator Plan}

theorem eq_null_or_mem (e : Expression Plan) : e = .null ∨ e ∈ subexpressions e := by
  cases e with
  | null => exact .inl rfl
  | _ => exact .inr List.mem_cons_self

theorem subexpressions_subset {es : List (Expression Plan)} {e : Expression Plan} (he : e ∈ es) :
    subexpressions e ⊆ subexpressionsOf es := by
  induction es with
  | nil => cases he
  | cons e' es ih =>
    intro s hs
    rw [subexpressionsOf, List.mem_append]
    rcases List.mem_cons.1 he with rfl | he
    · exact .inl hs
    · exact .inr (ih he hs)

/-- Children that are rewritten as expected. -/
theorem rewriteChildren_eq {es : List (Expression Plan)}
    (h : ∀ e ∈ subexpressionsOf es,
      rewriteToProducedBinding input e = some (expected produced e)) :
    rewriteChildren input es = some (expectedChildren produced es) := by
  induction es with
  | nil => rfl
  | cons e es ih =>
    have he : rewriteToProducedBinding input e = some (expected produced e) := by
      rcases eq_null_or_mem e with rfl | hmem
      · rfl
      · exact h e (subexpressions_subset List.mem_cons_self hmem)
    rw [rewriteChildren, he, Option.bind_some, ih fun e' he' => h e' (List.mem_append_right _ he')]
    rfl

/-- One node: the children are rewritten before it is looked for. -/
theorem node_iff (make : List (Expression Plan) → Expression Plan) {root : Expression Plan}
    {children : List (Expression Plan)}
    (hrewrite : rewriteToProducedBinding input root =
      (rewriteChildren input children).bind fun es => resolve input (make es))
    (hbelow : replacedBelow produced root = make (expectedChildren produced children))
    (ih : (∀ e ∈ subexpressionsOf children,
        rewriteToProducedBinding input e = some (expected produced e)) ↔
      ∀ e ∈ subexpressionsOf children,
        resolve input (replacedBelow produced e) = some (expected produced e)) :
    (∀ e ∈ root :: subexpressionsOf children,
        rewriteToProducedBinding input e = some (expected produced e)) ↔
      ∀ e ∈ root :: subexpressionsOf children,
        resolve input (replacedBelow produced e) = some (expected produced e) := by
  rw [List.forall_mem_cons, List.forall_mem_cons, ← ih]
  refine and_congr_left fun hchildren => ?_
  rw [hrewrite, rewriteChildren_eq hchildren, Option.bind_some, hbelow]

mutual

/-- **The rewriting goes right at every depth** exactly where the search goes right at each. -/
theorem rewrite_iff_resolve : ∀ e : Expression Plan,
    (∀ s ∈ subexpressions e, rewriteToProducedBinding input s = some (expected produced s)) ↔
      ∀ s ∈ subexpressions e, resolve input (replacedBelow produced s) = some (expected produced s)
  | .null => ⟨nofun, nofun⟩
  | .columnRef _ _ _ => by
    rw [subexpressions, List.forall_mem_singleton, List.forall_mem_singleton]
    rfl
  | .constant _ _ => by
    rw [subexpressions, List.forall_mem_singleton, List.forall_mem_singleton]
    rfl
  | .function functionName opOid children =>
    node_iff (.function functionName opOid) rfl rfl (rewriteAll_iff_resolveAll children)
  | .aggregate functionName aggOid isDistinct children =>
    node_iff (.aggregate functionName aggOid isDistinct) rfl rfl
      (rewriteAll_iff_resolveAll children)
  | .conjunction boolExprType children =>
    node_iff (.conjunction boolExprType) rfl rfl (rewriteAll_iff_resolveAll children)
  | .subquery sublinkType sublinkName subqueryPlan children =>
    node_iff (.subquery sublinkType sublinkName subqueryPlan) rfl rfl
      (rewriteAll_iff_resolveAll children)

theorem rewriteAll_iff_resolveAll : ∀ es : List (Expression Plan),
    (∀ s ∈ subexpressionsOf es, rewriteToProducedBinding input s = some (expected produced s)) ↔
      ∀ s ∈ subexpressionsOf es,
        resolve input (replacedBelow produced s) = some (expected produced s)
  | [] => ⟨nofun, nofun⟩
  | e :: es => by
    rw [subexpressionsOf, List.forall_mem_append, List.forall_mem_append, rewrite_iff_resolve e,
      rewriteAll_iff_resolveAll es]

end

/-- **A use is resolved exactly where its columns are found.** -/
theorem resolved_iff_found (needed : Expression Plan → Prop) (use : Use Plan) :
    Resolved produced needed use ↔ Found produced needed use :=
  and_congr_right fun _ => rewrite_iff_resolve use.2

end Resolution

/-! ## The calls of a query -/

section Calls

variable {calls : List (Expression Plan)}

/-- The column that a call gets. -/
def columnOfCall (expressions : List (Expression Plan)) (call : Expression Plan) : Option Nat :=
  findKey expressions (expressionSemanticKey call)

/-- Every text among the calls is that of a column. -/
theorem exists_key_firstOfKeys {call : Expression Plan} (hcall : call ∈ calls) :
    ∃ e ∈ firstOfKeys calls, expressionSemanticKey e = expressionSemanticKey call := by
  have hrun : ∀ (calls done : List (Expression Plan)) (call : Expression Plan),
      call ∈ calls ∨ call ∈ done →
      ∃ e ∈ calls.foldl (fun expressions call =>
        if expressions.any fun e => expressionSemanticKey e = expressionSemanticKey call
        then expressions else expressions ++ [call]) done,
        expressionSemanticKey e = expressionSemanticKey call := by
    intro calls
    induction calls with
    | nil =>
      intro done call hcall
      exact ⟨call, hcall.resolve_left List.not_mem_nil, rfl⟩
    | cons next calls ih =>
      intro done call hcall
      rw [List.foldl_cons]
      split
      · rename_i hany
        rcases hcall with hcall | hdone
        · rcases List.mem_cons.1 hcall with rfl | hcall
          · obtain ⟨e, he, hkey⟩ := List.any_eq_true.1 hany
            obtain ⟨e', he', hkey'⟩ := ih done e (.inr he)
            exact ⟨e', he', hkey'.trans (of_decide_eq_true hkey)⟩
          · exact ih done call (.inl hcall)
        · exact ih done call (.inr hdone)
      · refine ih (done ++ [next]) call ?_
        rw [List.mem_append, List.mem_singleton]
        rcases hcall with hcall | hdone
        · rcases List.mem_cons.1 hcall with rfl | hcall
          · exact .inr (.inr rfl)
          · exact .inl hcall
        · exact .inr (.inl hdone)
  exact hrun calls [] call (.inl hcall)

/-- Two calls get the same column exactly when they have the same text. -/
theorem columnOfCall_eq_iff {left right : Expression Plan} (hleft : left ∈ calls) :
    columnOfCall (firstOfKeys calls) left = columnOfCall (firstOfKeys calls) right ↔
      expressionSemanticKey left = expressionSemanticKey right := by
  refine ⟨fun heq => ?_, fun heq => by rw [columnOfCall, heq, columnOfCall]⟩
  obtain ⟨e, he, hkey⟩ := exists_key_firstOfKeys hleft
  cases hfound : columnOfCall (firstOfKeys calls) left with
  | none =>
    rw [columnOfCall, findKey, List.findIdx?_eq_none_iff] at hfound
    exact absurd hkey (of_decide_eq_false (hfound e he))
  | some idx =>
    have hright := heq.symm.trans hfound
    rw [columnOfCall, findKey, List.findIdx?_eq_some_iff_getElem] at hfound hright
    obtain ⟨hlt, hfirst, -⟩ := hfound
    obtain ⟨_, hsecond, -⟩ := hright
    exact (of_decide_eq_true hfirst).symm.trans (of_decide_eq_true hsecond)

end Calls

/-! ## The columns of a query -/

section Queries

open Classical in
/-- The place of an expression in a list. -/
noncomputable def placeOf (es : List (Expression Plan)) (e : Expression Plan) : Option Nat :=
  es.findIdx? fun e' => e' = e

/-- A column that the input produces anyway, under the name it is published by. -/
def visibleColumn (input : LogicalOperator Plan) (e : Expression Plan) :
    Option (Expression Plan) :=
  match e with
  | .columnRef binding _ _ =>
    (findUnique (fun output => output.binding = binding) (collectProducedOutputs input)).map
      columnOfOutput
  | _ => none

/-- The column that computes an expression over an aggregate. -/
noncomputable def producedByAggregate (aggregate : LogicalAggregate Plan)
    (input : LogicalOperator Plan) (e : Expression Plan) : Option (Expression Plan) :=
  match placeOf aggregate.groups e with
  | some idx =>
    some (.columnRef ⟨aggregate.groupIndex, idx⟩ (derivedTableName e "group")
      (aggregate.groupNames[idx]?.getD (derivedColumnName e idx)))
  | none =>
    match placeOf aggregate.expressions e with
    | some idx => some (callColumn aggregate idx)
    | none => visibleColumn input e

/-- The column that computes an expression over the select list. -/
noncomputable def producedByProjection (entries : List (TargetEntry Plan))
    (tableIndex : Nat) (outputNames : List String) (input : LogicalOperator Plan)
    (e : Expression Plan) : Option (Expression Plan) :=
  match placeOf (entries.map TargetEntry.expr) e with
  | some idx =>
    some (.columnRef ⟨tableIndex, idx⟩ "proj" (outputNames[idx]?.getD (derivedColumnName e idx)))
  | none => visibleColumn input e

/-- What has to be replaced above the aggregate: its calls and its keys. -/
def Needed (aggregate : LogicalAggregate Plan) (e : Expression Plan) : Prop :=
  (∃ functionName aggOid isDistinct children,
    e = .aggregate functionName aggOid isDistinct children) ∨ e ∈ aggregate.groups

variable (promote : LogicalOperator Plan → Expression Plan → Use Plan) (query : Query Plan)
  (indexes : Indexes)

/-- The select list with all its keys and calls replaced. -/
noncomputable def expectedList : List (Expression Plan) :=
  (projectionUses promote query indexes).map fun use =>
    expected (producedByAggregate (aggregateOf query indexes) use.1) use.2

noncomputable def expectedProjection : LogicalOperator Plan :=
  .projection indexes.projection (expectedList promote query indexes)
    (outputNames query (expectedList promote query indexes))

/-- The column that computes an expression of ORDER BY. -/
noncomputable def producedInOrder (input : LogicalOperator Plan) :
    Expression Plan → Option (Expression Plan) :=
  producedByProjection (outputEntries query) indexes.projection
    (outputNames query (expectedList promote query indexes)) input

/-- **The aggregates of a query have their columns**: calls with the same column are the same
call, and HAVING, the windows, the select list and what ORDER BY adds to it are rewritten, at
every depth, to the columns that compute their keys and calls. -/
structure ProducesColumns : Prop where
  apart : ∀ left ∈ collectQueryAggregates query, ∀ right ∈ collectQueryAggregates query,
    columnOfCall (aggregateOf query indexes).expressions left =
      columnOfCall (aggregateOf query indexes).expressions right → left = right
  uses : ∀ use ∈ aggregateUses promote query indexes,
    Resolved (producedByAggregate (aggregateOf query indexes) use.1)
      (Needed (aggregateOf query indexes)) use
  order : ∀ projection, translateProjection promote query indexes = some projection →
    ∀ use ∈ orderUses promote query projection,
      Resolved (producedInOrder promote query indexes use.1) (Needed (aggregateOf query indexes))
        use

/-- **The texts tell the calls apart and find the columns.** -/
structure TextsFindColumns : Prop where
  apart : ∀ left ∈ collectQueryAggregates query, ∀ right ∈ collectQueryAggregates query,
    expressionSemanticKey left = expressionSemanticKey right → left = right
  uses : ∀ use ∈ aggregateUses promote query indexes,
    Found (producedByAggregate (aggregateOf query indexes) use.1)
      (Needed (aggregateOf query indexes)) use
  order : ∀ use ∈ orderUses promote query (expectedProjection promote query indexes),
    Found (producedInOrder promote query indexes use.1) (Needed (aggregateOf query indexes)) use

variable {promote query indexes}

theorem rewrite_of_resolved {produced : Expression Plan → Option (Expression Plan)}
    {needed : Expression Plan → Prop} {use : Use Plan} (h : Resolved produced needed use) :
    rewriteToProducedBinding use.1 use.2 = some (expected produced use.2) := by
  rcases eq_null_or_mem use.2 with hnull | hmem
  · rw [hnull]
    rfl
  · exact h.2 use.2 hmem

/-- With its uses resolved the select list is the expected one. -/
theorem translateProjection_eq
    (h : ∀ use ∈ aggregateUses promote query indexes,
      Resolved (producedByAggregate (aggregateOf query indexes) use.1)
        (Needed (aggregateOf query indexes)) use) :
    translateProjection promote query indexes = some (expectedProjection promote query indexes) := by
  have hlist : ((projectionUses promote query indexes).mapM fun use =>
      rewriteToProducedBinding use.1 use.2) = some (expectedList promote query indexes) := by
    have hall : ∀ use ∈ projectionUses promote query indexes,
        rewriteToProducedBinding use.1 use.2 =
          some (expected (producedByAggregate (aggregateOf query indexes) use.1) use.2) :=
      fun use huse => rewrite_of_resolved (h use (List.mem_append_right _ huse))
    rw [expectedList]
    revert hall
    generalize projectionUses promote query indexes = uses
    intro hall
    induction uses with
    | nil => rfl
    | cons use uses ih =>
      rw [List.mapM_cons, hall use List.mem_cons_self,
        ih fun use' huse' => hall use' (List.mem_cons_of_mem _ huse')]
      rfl
  rw [translateProjection, hlist]
  rfl

end Queries

/-! ## Directly over the aggregate -/

section Direct

variable {aggregate : LogicalAggregate Plan} {input : LogicalOperator Plan}

theorem skip_eq_collect (input : LogicalOperator Plan) :
    collectProducedOutputs (skipTransparentOperators input) = collectProducedOutputs input := by
  induction input with
  | transparent child ih => exact ih
  | _ => rfl

theorem findUnique_eq_none {p : ProducedOutput → Bool} {outputs : List ProducedOutput}
    (h : ∀ output ∈ outputs, p output = false) : findUnique p outputs = none := by
  have hempty : outputs.filter p = [] :=
    List.filter_eq_nil_iff.2 fun output houtput => by rw [h output houtput]; exact Bool.false_ne_true
  rw [findUnique, hempty]

/-- The outputs of an aggregate have the texts of its keys and calls. -/
theorem mem_outputs_aggregate {output : ProducedOutput}
    (h : output ∈ collectProducedOutputs (.aggregate aggregate)) :
    ∃ e ∈ aggregate.groups ++ aggregate.expressions,
      output.semanticKey = expressionSemanticKey e ∧
      ∀ binding, output.sourceBinding = some binding →
        ∃ tableName columnName, e = .columnRef binding tableName columnName := by
  have hsource : ∀ (binding : ColumnBinding) (tableName name : String) (e : Expression Plan) b,
      (makeProducedOutput binding tableName name e).sourceBinding = some b →
      ∃ tableName columnName, e = .columnRef b tableName columnName := by
    intro binding tableName name e b hb
    cases e with
    | columnRef binding' tableName' columnName' =>
      obtain rfl := Option.some.inj hb
      exact ⟨tableName', columnName', rfl⟩
    | _ => cases hb
  rw [collectProducedOutputs, List.mem_append, List.mem_mapIdx, List.mem_mapIdx] at h
  rcases h with ⟨idx, hidx, rfl⟩ | ⟨idx, hidx, rfl⟩
  · exact ⟨_, List.mem_append_left _ (List.getElem_mem hidx), rfl, hsource _ _ _ _⟩
  · exact ⟨_, List.mem_append_right _ (List.getElem_mem hidx), rfl, hsource _ _ _ _⟩

open Classical in
theorem placeOf_eq_none {es : List (Expression Plan)} {e : Expression Plan}
    (h : placeOf es e = none) : e ∉ es := by
  rw [placeOf, List.findIdx?_eq_none_iff] at h
  exact fun hmem => of_decide_eq_false (h e hmem) rfl

open Classical in
theorem getElem?_of_placeOf {es : List (Expression Plan)} {e : Expression Plan} {idx : Nat}
    (h : placeOf es e = some idx) : es[idx]? = some e := by
  rw [placeOf, List.findIdx?_eq_some_iff_getElem] at h
  obtain ⟨hlt, heq, -⟩ := h
  rw [List.getElem?_eq_getElem hlt, of_decide_eq_true heq]

/-- **Directly over an aggregate whose keys are columns** the column of an expression is found
where its text, with what is produced replaced below it, is that of exactly the key or call it
is. -/
theorem resolve_of_texts (hinput : skipTransparentOperators input = .aggregate aggregate)
    (hcolumns : ∀ e ∈ aggregate.groups, ∃ binding tableName columnName,
      e = .columnRef binding tableName columnName)
    (hcalls : ∀ e ∈ aggregate.expressions, ∀ binding tableName columnName,
      e ≠ .columnRef binding tableName columnName)
    {e : Expression Plan} (hnull : e ≠ .null)
    (hgroup : findKey aggregate.groups
        (expressionSemanticKey (replacedBelow (producedByAggregate aggregate input) e)) =
      placeOf aggregate.groups e)
    (hcall : findKey aggregate.expressions
        (expressionSemanticKey (replacedBelow (producedByAggregate aggregate input) e)) =
      placeOf aggregate.expressions e)
    (hsame : ∀ binding tableName columnName, e = .columnRef binding tableName columnName →
      ∀ tableName' columnName', .columnRef binding tableName' columnName' ∈ aggregate.groups →
        e ∈ aggregate.groups) :
    resolve input (replacedBelow (producedByAggregate aggregate input) e) =
      some (expected (producedByAggregate aggregate input) e) := by
  have hexpected : expected (producedByAggregate aggregate input) e =
      (producedByAggregate aggregate input e).getD
        (replacedBelow (producedByAggregate aggregate input) e) := by
    cases e with
    | null => exact absurd rfl hnull
    | _ => rfl
  rw [hexpected, resolve, searchProduced, hinput, producedByAggregate]
  simp only [hgroup, hcall]
  cases hplace : placeOf aggregate.groups e with
  | some idx =>
    have hget := getElem?_of_placeOf hplace
    obtain ⟨binding, tableName, columnName, rfl⟩ := hcolumns e (List.mem_of_getElem? hget)
    simp only [groupColumn, hget]
    rfl
  | none =>
    cases hplaceCall : placeOf aggregate.expressions e with
    | some idx => rfl
    | none =>
      -- neither a key nor a call: only a column that is visible anyway is found
      have hkey : findUnique (fun output => output.semanticKey ≠ "" ∧ output.semanticKey =
          expressionSemanticKey (replacedBelow (producedByAggregate aggregate input) e))
          (collectProducedOutputs (.aggregate aggregate)) = none := by
        refine findUnique_eq_none fun output houtput => decide_eq_false ?_
        rintro ⟨-, heq⟩
        obtain ⟨e', he', htext, -⟩ := mem_outputs_aggregate houtput
        rw [hplace, findKey, List.findIdx?_eq_none_iff] at hgroup
        rw [hplaceCall, findKey, List.findIdx?_eq_none_iff] at hcall
        rcases List.mem_append.1 he' with hmem | hmem
        · exact of_decide_eq_false (hgroup e' hmem) (htext.symm.trans heq)
        · exact of_decide_eq_false (hcall e' hmem) (htext.symm.trans heq)
      have houtputs : collectProducedOutputs input =
          collectProducedOutputs (.aggregate aggregate) := by
        rw [← skip_eq_collect input, hinput]
      simp only [tryRewriteToProducedOutput, hkey, Option.map_some, visibleColumn, houtputs]
      cases e with
      | columnRef binding tableName columnName =>
        have hsource : findUnique (fun output => output.sourceBinding = some binding)
            (collectProducedOutputs (.aggregate aggregate)) = none := by
          refine findUnique_eq_none fun output houtput => decide_eq_false fun heq => ?_
          obtain ⟨e', he', -, hbinding⟩ := mem_outputs_aggregate houtput
          obtain ⟨tableName', columnName', rfl⟩ := hbinding binding heq
          rcases List.mem_append.1 he' with hmem | hmem
          · exact placeOf_eq_none hplace (hsame _ _ _ rfl _ _ hmem)
          · exact hcalls _ hmem _ _ _ rfl
        simp only [replacedBelow, hsource]
        cases findUnique (fun output => output.binding = binding)
          (collectProducedOutputs (.aggregate aggregate)) <;> rfl
      | _ => rfl

end Direct

/-- The column `x` of a table `t`. -/
def columnX : Expression Unit := .columnRef ⟨0, 0⟩ "t" "x"

/-- `SELECT count(x), count(DISTINCT x) FROM t`. -/
def countTwice : Query Unit where
  targetList :=
    [⟨.aggregate "count" 2147 false [columnX], false, some "all"⟩,
      ⟨.aggregate "count" 2147 true [columnX], false, some "distinct"⟩]
  groupClause := []
  havingQual := none
  window := none
  sortClause := []

end ProducedColumns
end PgYaap
