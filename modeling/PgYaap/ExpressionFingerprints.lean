import PgYaap.ExpressionEvaluation

/-! # Fingerprints of expressions

The text by which the passes take two expressions for the same. The source has several
copies; they differ in how a column is written and in whether aggregates and subqueries are
told apart at all. -/
namespace PgYaap
namespace ExpressionFingerprints

open LogicalPlan Expression

mutual

/-- The copies of `ExpressionFingerprint`: `column` writes a column reference, and without
`aggregates` an aggregate or a subquery is `opaque`. -/
def fingerprintWith (column : ColumnBinding → String) (aggregates : Bool) : Expression → String
  | columnRef binding => "col:" ++ column binding
  | constant value isNull => "const:" ++ if isNull then "NULL" else value
  | function functionName _ children =>
    "fn:" ++ functionName ++ "(" ++ ",".intercalate (fingerprintsWith column aggregates children)
      ++ ")"
  | aggregate functionName _ _ children =>
    if aggregates then
      "agg:" ++ functionName ++ "(" ++
        ",".intercalate (fingerprintsWith column aggregates children) ++ ")"
    else "opaque"
  | conjunction boolExprType children =>
    "conj:" ++ toString boolExprType ++ "(" ++
      ",".intercalate (fingerprintsWith column aggregates children) ++ ")"
  | subquery _ sublinkName children =>
    if aggregates then
      "subquery:" ++ sublinkName ++ "(" ++
        ",".intercalate (fingerprintsWith column aggregates children) ++ ")"
    else "opaque"
  | opaqueExpr => "opaque"

/-- The fingerprints of the arguments. -/
def fingerprintsWith (column : ColumnBinding → String) (aggregates : Bool) :
    List Expression → List String
  | [] => []
  | e :: es => fingerprintWith column aggregates e :: fingerprintsWith column aggregates es

end

/-- A column by the indexes of its binding. -/
def bindingText (binding : ColumnBinding) : String :=
  toString binding.tableIndex ++ "." ++ toString binding.columnIndex

/-- `ExpressionFingerprint` of `logical_utils.cpp`. -/
def expressionFingerprint : Expression → String := fingerprintWith bindingText true

/-- `DecorrelatedExpressionFingerprint`. -/
def decorrelatedExpressionFingerprint : Expression → String := fingerprintWith bindingText true

/-- `ExpressionFingerprint` of `join_predicate_extraction.cpp`. -/
def joinPredicateFingerprint : Expression → String := fingerprintWith bindingText false

/-- `ExpressionSemanticKey` of the adapter: a column by the names of its table and its
column. -/
def adapterSemanticKey (tableName columnName : ColumnBinding → String) : Expression → String :=
  fingerprintWith (fun b => tableName b ++ "." ++ columnName b) true

end ExpressionFingerprints
end PgYaap
