import PgYaap.ExpressionEvaluation
import PgYaap.RankedRows

/-! # LIMIT of a correlated subquery

`PushDownLimit`: the LIMIT of a subquery whose child refers to outer columns becomes a
`row_number()` window over the inner sides of the lifted equalities and a filter on the
number. The push-down of the child is a parameter; what the rewritten plan returns is stated
for any rows of the child. -/
namespace PgYaap
namespace DecorrelatedLimit

open LogicalPlan Expression ExpressionEvaluation RankedRows

/-! ## The rewrite -/

/-- `InvalidOid`. -/
def invalidOid : Int := 0

/-- `ExpressionReferencesOnlyAllowedTables`. -/
def referencesOnlyAllowedTables (allowedTables : Finset Nat) (e : Expression) : Bool :=
  e.referencedTables ⊆ allowedTables

/-- `ExtractDecorrelatedEquality`: the inner and the outer side of an equality. -/
def extractDecorrelatedEquality (allowedTables : Finset Nat) :
    Expression → Option (Expression × Expression)
  | function functionName _ [left, right] =>
    let leftAllowed := referencesOnlyAllowedTables allowedTables left
    let rightAllowed := referencesOnlyAllowedTables allowedTables right
    if functionName ≠ "=" ∨ leftAllowed = rightAllowed then none
    else if leftAllowed then some (left, right)
    else some (right, left)
  | _ => none

/-- `SubtreeHasCorrelatedReferences`. -/
def subtreeHasCorrelatedReferences (allowedTables : Finset Nat) : LogicalOperator → Bool
  | .get g => !g.filters.all (referencesOnlyAllowedTables allowedTables)
  | .filter expressions child =>
    !expressions.all (referencesOnlyAllowedTables allowedTables) ||
      subtreeHasCorrelatedReferences allowedTables child
  | .projection _ expressions child =>
    !expressions.all (referencesOnlyAllowedTables allowedTables) ||
      subtreeHasCorrelatedReferences allowedTables child
  | .aggregate _ _ groups expressions child =>
    !groups.all (referencesOnlyAllowedTables allowedTables) ||
      !expressions.all (referencesOnlyAllowedTables allowedTables) ||
      subtreeHasCorrelatedReferences allowedTables child
  | .distinct expressions child =>
    !expressions.all (referencesOnlyAllowedTables allowedTables) ||
      subtreeHasCorrelatedReferences allowedTables child
  | .setOperation _ _ left right =>
    subtreeHasCorrelatedReferences allowedTables left ||
      subtreeHasCorrelatedReferences allowedTables right
  | .crossProduct left right =>
    subtreeHasCorrelatedReferences allowedTables left ||
      subtreeHasCorrelatedReferences allowedTables right
  | .join join left right =>
    !join.conditions.all (referencesOnlyAllowedTables allowedTables) ||
      subtreeHasCorrelatedReferences allowedTables left ||
      subtreeHasCorrelatedReferences allowedTables right
  | .delimGet _ _ => false
  | .order orders child =>
    !orders.all (referencesOnlyAllowedTables allowedTables) ||
      subtreeHasCorrelatedReferences allowedTables child
  | .window _ _ partitions orders child =>
    !partitions.all (referencesOnlyAllowedTables allowedTables) ||
      !orders.all (referencesOnlyAllowedTables allowedTables) ||
      subtreeHasCorrelatedReferences allowedTables child
  | .limit limitCount limitOffset child =>
    !limitCount.all (referencesOnlyAllowedTables allowedTables) ||
      !limitOffset.all (referencesOnlyAllowedTables allowedTables) ||
      subtreeHasCorrelatedReferences allowedTables child

/-- `SplitConjunctions`. -/
def splitConjunctions (expressions : List Expression) : List Expression :=
  expressions.flatMap fun e => match e with
    | conjunction 0 children => children
    | e => [e]

/-- `ExtractCorrelatedExpressions`: the filters that stay and the ones that are lifted. -/
def extractCorrelatedExpressions (allowedTables : Finset Nat) (expressions : List Expression) :
    List Expression × List Expression :=
  (splitConjunctions expressions).partition (referencesOnlyAllowedTables allowedTables)

/-- `PushDownGet` and `PushDownFilter`, the cases of `PushDownCorrelatedNode` for filters over
a scan. -/
def pushDownScan (allowedTables : Finset Nat) :
    LogicalOperator → Option (LogicalOperator × List Expression)
  | .get g =>
    let extracted := extractCorrelatedExpressions allowedTables g.filters
    some (.get { g with filters := extracted.1 }, extracted.2)
  | .filter expressions child =>
    (pushDownScan allowedTables child).map fun pushed =>
      let extracted := extractCorrelatedExpressions allowedTables expressions
      (if extracted.1 = [] then pushed.1 else .filter extracted.1 pushed.1,
        pushed.2 ++ extracted.2)
  | _ => none

/-- The column of the window. -/
def limitRownum (windowTableIndex : Nat) : ColumnBinding := ⟨windowTableIndex, 0⟩

/-- `BuildDecorrelatedLimitRowNumberFilter`. -/
def buildDecorrelatedLimitRowNumberFilter (limitCount limitOffset : Option Expression)
    (windowTableIndex : Nat) : Option Expression :=
  let rownum := columnRef (limitRownum windowTableIndex)
  let upper := limitCount.map fun count =>
    function "<=" invalidOid [rownum, match limitOffset with
      | some offset => function "+" invalidOid [count, offset]
      | none => count]
  let lower := limitOffset.map fun offset => function ">" invalidOid [rownum, offset]
  match lower, upper with
  | some lower, some upper => some (conjunction 0 [lower, upper])
  | some lower, none => some lower
  | none, upper => upper

/-- The loop over the lifted filters of the child: the partitions of the window and the
filters that stay lifted, or a filter on inner columns that is no equality. -/
def splitLiftedFilters (allowedTables : Finset Nat) :
    List Expression → Option (List Expression × List Expression)
  | [] => some ([], [])
  | e :: es =>
    match extractDecorrelatedEquality allowedTables e with
    | some (inner, _) =>
      (splitLiftedFilters allowedTables es).map fun split => (inner :: split.1, e :: split.2)
    | none =>
      if e.referencedTables ∩ allowedTables = ∅ then
        (splitLiftedFilters allowedTables es).map fun split => (split.1, e :: split.2)
      else none

/-- The ORDER BY below the LIMIT and the plan below both. -/
def takeOrder : LogicalOperator → List Expression × LogicalOperator
  | .order orders child => (orders, child)
  | child => ([], child)

/-- `PushDownLimit`: the new plan and the filters it lifts. -/
def pushDownLimit
    (pushDownCorrelatedNode : LogicalOperator → Option (LogicalOperator × List Expression))
    (windowTableIndex : Nat) (allowedTables : Finset Nat)
    (limitCount limitOffset : Option Expression) (child : LogicalOperator) :
    Option (LogicalOperator × List Expression) :=
  let (orders, base) := takeOrder child
  if !limitCount.all (referencesOnlyAllowedTables allowedTables) ||
      !limitOffset.all (referencesOnlyAllowedTables allowedTables) ||
      !orders.all (referencesOnlyAllowedTables allowedTables) then none
  else if !subtreeHasCorrelatedReferences allowedTables base then
    (pushDownCorrelatedNode child).map fun pushed =>
      (.limit limitCount limitOffset pushed.1, pushed.2)
  else do
    let (pushed, childLifted) ← pushDownCorrelatedNode base
    let (partitions, remaining) ← splitLiftedFilters allowedTables childLifted
    if partitions = [] then none
    else
      let rownumFilter ← buildDecorrelatedLimitRowNumberFilter limitCount limitOffset
        windowTableIndex
      some (.filter [rownumFilter]
        (.window windowTableIndex ["row_number"] partitions orders pushed), remaining)

/-! ## What the plans return -/

/-- A number of type `bigint`. -/
def FitsBigint (n : Int) : Prop := -2 ^ 63 ≤ n ∧ n < 2 ^ 63

instance (n : Int) : Decidable (FitsBigint n) := inferInstanceAs (Decidable (_ ∧ _))

/-- The numbers among the values and the operators of the filter on the row number. A sum
that is out of range has no value that a row could be compared with. -/
structure Bigints {V : Type} (I : Interpretation V) where
  ofInt : Int → V
  toInt : V → Int
  toInt_ofInt : ∀ n, toInt (ofInt n) = n
  le_ofInt : ∀ m n, I.function "<=" invalidOid [some (ofInt m), some (ofInt n)] =
    I.ofTruth (some (decide (m ≤ n)))
  gt_ofInt : ∀ m n, I.function ">" invalidOid [some (ofInt m), some (ofInt n)] =
    I.ofTruth (some (decide (n < m)))
  le_null : ∀ v, I.function "<=" invalidOid [v, none] = none
  gt_null : ∀ v, I.function ">" invalidOid [v, none] = none
  truth_null : I.truth none = none
  add_ofInt : ∀ m n, FitsBigint (m + n) →
    I.function "+" invalidOid [some (ofInt m), some (ofInt n)] = some (ofInt (m + n))
  add_overflow : ∀ m n, ¬FitsBigint (m + n) → ∀ v,
    I.truth (I.function "<=" invalidOid
      [v, I.function "+" invalidOid [some (ofInt m), some (ofInt n)]]) ≠ some true
  add_null_left : ∀ v, I.function "+" invalidOid [none, v] = none
  add_null_right : ∀ v, I.function "+" invalidOid [v, none] = none

variable {V : Type} (I : Interpretation V) (B : Bigints I)

/-- The number of a LIMIT or OFFSET clause, `none` for NULL and for no clause. -/
def limitValue (limit : Option Expression) : Option Int :=
  (limit.bind fun e => value I (fun _ => none) e).map B.toInt

/-- An expression of type `bigint` without columns, as the parser leaves them in a LIMIT or
OFFSET clause. -/
def IsBigint (e : Expression) : Prop :=
  e.bindings = ∅ ∧ ∀ v ∈ value I (fun _ => none) e, ∃ n, FitsBigint n ∧ v = B.ofInt n

/-- A sort key; NULL is greater than every value. -/
def sortKey (v : Option V) : WithTop V := v

/-- The order of rows under ORDER BY, by one sort key after the other. -/
def Precedes [LinearOrder V] (orders : List Expression) (row row' : Env V) : Prop :=
  (values I row orders).map sortKey ≤ (values I row' orders).map sortKey

instance [LinearOrder V] (orders : List Expression) (row row' : Env V) :
    Decidable (Precedes I orders row row') := inferInstanceAs (Decidable (_ ≤ _))

/-- The columns in scope of a lifted filter: inner ones from `row`, the others from `outer`. -/
def combined (allowedTables : Finset Nat) (outer row : Env V) : Env V := fun b =>
  if b.tableIndex ∈ allowedTables then row b else outer b

/-- The filters hold of an outer and an inner row. -/
def Lifted (allowedTables : Finset Nat) (lifted : List Expression) (outer row : Env V) : Prop :=
  ∀ e ∈ lifted, truthOf I (combined allowedTables outer row) e = some true

instance (allowedTables : Finset Nat) (lifted : List Expression) (outer : Env V) :
    DecidablePred (Lifted I allowedTables lifted outer) := fun row =>
  inferInstanceAs (Decidable (∀ e ∈ lifted,
    truthOf I (combined allowedTables outer row) e = some true))

/-- The rows of filters over a scan for an outer row; `tables` holds the rows of the tables. -/
def scanRows (tables : Nat → List (Env V)) (allowedTables : Finset Nat) (outer : Env V) :
    LogicalOperator → List (Env V)
  | .get g => (tables g.tableIndex).filter fun row => Lifted I allowedTables g.filters outer row
  | .filter expressions child => (scanRows tables allowedTables outer child).filter fun row =>
      Lifted I allowedTables expressions outer row
  | _ => []

/-- A row with its number in the column of the window. -/
def withRownum (windowTableIndex : Nat) (x : Env V × Nat) : Env V :=
  Function.update x.1 (limitRownum windowTableIndex) (some (B.ofInt x.2))

/-- A row without the column of the window. -/
def withoutRownum (windowTableIndex : Nat) (row : Env V) : Env V :=
  Function.update row (limitRownum windowTableIndex) none

/-- The rows of a plan over a plan `input` with the rows `rows`. A window may arrange rows
that its order does not tell apart in any way. -/
inductive Returns [LinearOrder V] (input : LogicalOperator) (rows : List (Env V)) :
    LogicalOperator → List (Env V) → Prop
  | input : Returns input rows input rows
  | filter (expressions : List Expression) {child : LogicalOperator} {out : List (Env V)} :
    Returns input rows child out →
    Returns input rows (.filter expressions child)
      (out.filter fun row => ∀ e ∈ expressions, truthOf I row e = some true)
  | rowNumber (tableIndex : Nat) (partitions orders : List Expression)
      {child : LogicalOperator} {out arranged : List (Env V)} :
    Returns input rows child out → arranged.Perm out →
    arranged.Pairwise (Precedes I orders) →
    Returns input rows (.window tableIndex ["row_number"] partitions orders child)
      ((ranked (fun row => values I row partitions) arranged).map (withRownum I B tableIndex))

/-- What an ordered LIMIT may return of `rows`. -/
def LimitReturns [LinearOrder V] (orders : List Expression)
    (limitCount limitOffset : Option Expression) (rows result : List (Env V)) : Prop :=
  ∃ arranged : List (Env V), arranged.Perm rows ∧ arranged.Pairwise (Precedes I orders) ∧
    limitRows (limitValue I B limitCount) (limitValue I B limitOffset) arranged = some result

/-- **The purpose of the rewrite.** The child of the LIMIT has become `pushed` with the
filters `childLifted`: an outer row's own rows are the rows of `pushed` on which they hold.
For any rows of `pushed`, the rows of `plan` on which `lifted` holds are rows that the LIMIT
may return of them. -/
def GivesOwnLimit [LinearOrder V] (windowTableIndex : Nat) (allowedTables : Finset Nat)
    (limitCount limitOffset : Option Expression) (orders : List Expression)
    (pushed : LogicalOperator) (childLifted : List Expression) (plan : LogicalOperator)
    (lifted : List Expression) : Prop :=
  ∀ rows out, Returns I B pushed rows plan out → ∀ outer,
    ∃ result, LimitReturns I B orders limitCount limitOffset
        (rows.filter fun row => Lifted I allowedTables childLifted outer row) result ∧
      ((out.filter fun row => Lifted I allowedTables lifted outer row).map
        (withoutRownum windowTableIndex)).Perm (result.map (withoutRownum windowTableIndex))

end DecorrelatedLimit
end PgYaap
