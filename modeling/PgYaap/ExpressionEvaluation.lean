import PgYaap.LogicalPlan
import PgYaap.ThreeValuedLogic

/-! # Evaluation of expressions

The value of a bound expression on a row, for any type of values and any meaning of its
constants and functions. AND, OR, NOT and the boolean tests have their SQL meaning. -/
namespace PgYaap
namespace ExpressionEvaluation

open LogicalPlan ThreeValuedLogic Expression

/-- A row: the value of every column in scope, `none` for NULL. -/
abbrev Env (V : Type) := ColumnBinding → Option V

/-- What constants and functions mean. -/
structure Interpretation (V : Type) where
  constant : String → Option V
  function : String → Int → List (Option V) → Option V
  aggregate : String → Int → Bool → List (Option V) → Option V
  subquery : Int → String → List (Option V) → Option V
  ofTruth : Truth → Option V
  truth : Option V → Truth
  truth_ofTruth : ∀ t, truth (ofTruth t) = t

/-- Truth values only: nothing but columns has a value. -/
def booleans : Interpretation Bool where
  constant _ := none
  function _ _ _ := none
  aggregate _ _ _ _ := none
  subquery _ _ _ := none
  ofTruth t := t
  truth t := t
  truth_ofTruth _ := rfl

/-- `BooleanTest` under the names the adapter gives it. -/
def booleanTest (functionName : String) (t : Truth) : Option Bool :=
  if functionName = "is_true" then some (t = some true)
  else if functionName = "is_not_true" then some (t ≠ some true)
  else if functionName = "is_false" then some (t = some false)
  else if functionName = "is_not_false" then some (t ≠ some false)
  else if functionName = "is_unknown" then some (t = none)
  else if functionName = "is_not_unknown" then some (t ≠ none)
  else none

/-- `BoolExprType`: 0 for AND, 1 for OR, 2 for NOT. -/
def connective (boolExprType : Int) (ts : List Truth) : Truth :=
  if boolExprType = 0 then allOf ts
  else if boolExprType = 1 then anyOf ts
  else match ts with
    | [t] => if boolExprType = 2 then negate t else none
    | _ => none

variable {V : Type} (I : Interpretation V)

/-- A function on its arguments; a boolean test on one argument. -/
def functionValue (functionName : String) (opOid : Int) (args : List (Option V)) : Option V :=
  match args with
  | [arg] =>
    match booleanTest functionName (I.truth arg) with
    | some b => I.ofTruth (some b)
    | none => I.function functionName opOid [arg]
  | args => I.function functionName opOid args

mutual

/-- The value of an expression. -/
def value (row : Env V) : Expression → Option V
  | columnRef binding => row binding
  | constant value isNull => if isNull then none else I.constant value
  | function functionName opOid children =>
    functionValue I functionName opOid (values row children)
  | aggregate functionName aggOid isDistinct children =>
    I.aggregate functionName aggOid isDistinct (values row children)
  | conjunction boolExprType children =>
    I.ofTruth (connective boolExprType ((values row children).map I.truth))
  | subquery sublinkType sublinkName children =>
    I.subquery sublinkType sublinkName (values row children)
  | opaqueExpr => none

/-- The values of a list of expressions. -/
def values (row : Env V) : List Expression → List (Option V)
  | [] => []
  | e :: es => value row e :: values row es

end

/-- The truth of a condition. -/
def truthOf (row : Env V) (e : Expression) : Truth := I.truth (value I row e)

variable {I}

theorem values_eq_map (row : Env V) (es : List Expression) :
    values I row es = es.map (value I row) := by
  induction es with
  | nil => rfl
  | cons e es ih => rw [values, ih, List.map_cons]

mutual

/-- An expression reads only the columns it refers to. -/
theorem value_congr {row row' : Env V} (e : Expression)
    (h : ∀ b ∈ e.bindings, row b = row' b) : value I row e = value I row' e := by
  cases e with
  | columnRef binding => exact h binding (Finset.mem_singleton_self _)
  | constant v isNull => rfl
  | function functionName opOid children => rw [value, value, values_congr children h]
  | aggregate functionName aggOid isDistinct children =>
    rw [value, value, values_congr children h]
  | conjunction boolExprType children => rw [value, value, values_congr children h]
  | subquery sublinkType sublinkName children => rw [value, value, values_congr children h]
  | opaqueExpr => rfl

theorem values_congr {row row' : Env V} (es : List Expression)
    (h : ∀ b ∈ bindingsList es, row b = row' b) : values I row es = values I row' es := by
  cases es with
  | nil => rfl
  | cons e es =>
    rw [values, values, value_congr e fun b hb => h b (Finset.mem_union_left _ hb),
      values_congr es fun b hb => h b (Finset.mem_union_right _ hb)]

end

end ExpressionEvaluation
end PgYaap
