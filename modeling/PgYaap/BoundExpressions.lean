import PgYaap.ExpressionFingerprints

/-! # Bound expressions and their meaning

Expressions with the plans of their subqueries, which the fingerprints leave out. The
meaning of constants, functions, aggregates and subqueries is left open; AND, OR and NOT
have theirs. -/
namespace PgYaap
namespace BoundExpressions

open LogicalPlan ExpressionFingerprints ExpressionEvaluation ThreeValuedLogic

/-- The classes of bound expressions; `Plan` is `LogicalOperator`. -/
inductive BoundExpression (Plan : Type)
  | columnRef (binding : ColumnBinding)
  | constant (value : String) (isNull : Bool)
  | function (functionName : String) (opOid : Int) (children : List (BoundExpression Plan))
  | aggregate (functionName : String) (aggOid : Int) (isDistinct : Bool)
      (children : List (BoundExpression Plan))
  | conjunction (boolExprType : Int) (children : List (BoundExpression Plan))
  | subquery (sublinkType : Int) (sublinkName : String) (subqueryPlan : Plan)
      (children : List (BoundExpression Plan))

variable {Plan : Type}

mutual

/-- The expression that the fingerprints are read off. -/
def forgetPlans : BoundExpression Plan → Expression
  | .columnRef binding => .columnRef binding
  | .constant value isNull => .constant value isNull
  | .function functionName opOid children => .function functionName opOid (forgetPlansList children)
  | .aggregate functionName aggOid isDistinct children =>
    .aggregate functionName aggOid isDistinct (forgetPlansList children)
  | .conjunction boolExprType children => .conjunction boolExprType (forgetPlansList children)
  | .subquery sublinkType sublinkName _ children =>
    .subquery sublinkType sublinkName (forgetPlansList children)

def forgetPlansList : List (BoundExpression Plan) → List Expression
  | [] => []
  | e :: es => forgetPlans e :: forgetPlansList es

end

/-- `ExpressionFingerprint` in any of its copies. -/
def fingerprint (column : ColumnBinding → String) (aggregates : Bool) (e : BoundExpression Plan) :
    String :=
  fingerprintWith column aggregates (forgetPlans e)

/-- Adding a filter that no filter in the list has the fingerprint of. -/
def appendUnique (fingerprintOf : BoundExpression Plan → String)
    (filters : List (BoundExpression Plan)) (e : BoundExpression Plan) :
    List (BoundExpression Plan) :=
  if filters.any fun existing => fingerprintOf existing = fingerprintOf e then filters
  else filters ++ [e]

/-- `AppendUniqueFilter`. -/
def appendUniqueFilter (filters : List (BoundExpression Plan)) (e : BoundExpression Plan) :
    List (BoundExpression Plan) :=
  appendUnique (fingerprint bindingText true) filters e

/-! ## Meaning -/

/-- What the parts of an expression mean. An aggregate and a subquery may evaluate their
arguments on other rows than the one they stand on. -/
structure Meaning (Plan V : Type) where
  constant : String → Option V
  function : String → Int → List (Option V) → Option V
  aggregate : String → Int → Bool → (Env V → List (Option V)) → Env V → Option V
  subquery : Int → String → Plan → (Env V → List (Option V)) → Env V → Option V
  ofTruth : Truth → Option V
  truth : Option V → Truth
  truth_ofTruth : ∀ t, truth (ofTruth t) = t

variable {V : Type} (M : Meaning Plan V)

mutual

/-- The value of an expression on a row. -/
def valueOf (row : Env V) : BoundExpression Plan → Option V
  | .columnRef binding => row binding
  | .constant value isNull => if isNull then none else M.constant value
  | .function functionName opOid children => M.function functionName opOid (valuesOf row children)
  | .aggregate functionName aggOid isDistinct children =>
    M.aggregate functionName aggOid isDistinct (fun row => valuesOf row children) row
  | .conjunction boolExprType children =>
    M.ofTruth (connective boolExprType ((valuesOf row children).map M.truth))
  | .subquery sublinkType sublinkName subqueryPlan children =>
    M.subquery sublinkType sublinkName subqueryPlan (fun row => valuesOf row children) row

/-- The values of a list of expressions. -/
def valuesOf (row : Env V) : List (BoundExpression Plan) → List (Option V)
  | [] => []
  | e :: es => valueOf row e :: valuesOf row es

end

/-- The truth of the AND of a list of filters. -/
def filtersTruth (row : Env V) (filters : List (BoundExpression Plan)) : Truth :=
  allOf (filters.map fun e => M.truth (valueOf M row e))

/-- **Equal meaning**: one value on every row, whatever the parts mean. -/
def SameMeaning (e e' : BoundExpression Plan) : Prop :=
  ∀ (V : Type) (M : Meaning Plan V) (row : Env V), valueOf M row e = valueOf M row e'

/-- The same for lists of arguments. -/
def SameMeanings (es es' : List (BoundExpression Plan)) : Prop :=
  ∀ (V : Type) (M : Meaning Plan V) (row : Env V), valuesOf M row es = valuesOf M row es'

variable {M}

theorem SameMeanings.nil : SameMeanings ([] : List (BoundExpression Plan)) [] := fun _ _ _ => rfl

theorem SameMeanings.cons {e e' : BoundExpression Plan} {es es' : List (BoundExpression Plan)}
    (h : SameMeaning e e') (hs : SameMeanings es es') : SameMeanings (e :: es) (e' :: es') := by
  intro V M row
  rw [valuesOf, valuesOf, h V M row, hs V M row]

/-- A filter with the meaning of one that is there adds nothing. -/
theorem filtersTruth_append_of_mem {filters : List (BoundExpression Plan)}
    {e f : BoundExpression Plan} (hf : f ∈ filters) (h : SameMeaning f e) (row : Env V) :
    filtersTruth M row (filters ++ [e]) = filtersTruth M row filters := by
  have hmem : M.truth (valueOf M row e) ∈ filters.map fun e => M.truth (valueOf M row e) :=
    List.mem_map.2 ⟨f, hf, congrArg M.truth (h V M row)⟩
  rw [filtersTruth, List.map_append, List.map_singleton]
  apply truth_ext
  · rw [allOf_append_eq_true, filtersTruth, allOf_singleton, and_iff_left_iff_imp]
    exact fun hall => allOf_eq_true.1 hall _ hmem
  · rw [allOf_eq_false, filtersTruth, allOf_eq_false, List.mem_append, List.mem_singleton,
      or_iff_left_iff_imp]
    exact fun heq => heq ▸ hmem

end BoundExpressions
end PgYaap
