import PgYaap.CommonConjuncts
import PgYaap.PlanMeaning

/-! # Filter nodes

Passes over plans take a list of conditions apart into conjuncts and put those they keep back into
a filter, none for no conjuncts. Neither changes the rows that pass. -/
namespace PgYaap
namespace FilterNodes

open LogicalPlan Expression CommonConjuncts PlanMeaning ExpressionEvaluation BagJoins

/-- `SplitConjunctionList`, whose `AppendConjuncts` is `ExtractAndConjuncts`. -/
def splitConjunctionList (expressions : List Expression) : List Expression :=
  extractAndConjunctsList expressions

/-- `MakeFilterNode`. -/
def makeFilterNode (child : LogicalOperator) (expressions : List Expression) : LogicalOperator :=
  if expressions.isEmpty then child else .filter expressions child

/-- An expression refers to columns in scope. -/
def InScope (plan : LogicalOperator) (e : Expression) : Prop :=
  ∀ b ∈ e.bindings, inScope plan b = true

variable {V : Type} {I : PlanInterpretation V}

/-! ## Conjuncts -/

section Conjuncts

variable {row : Env V}

theorem holds_split (es : List Expression) :
    Holds I.toInterpretation row (splitConjunctionList es) ↔ Holds I.toInterpretation row es := by
  rw [holds_iff_allOf, holds_iff_allOf]
  exact Eq.congr_left (allTruth_extractAndConjunctsList es)

/-- A list of conditions and its two parts. -/
theorem holds_filter_not (es : List Expression) (p : Expression → Bool) :
    Holds I.toInterpretation row es ↔
      Holds I.toInterpretation row (es.filter p) ∧
        Holds I.toInterpretation row (es.filter fun e => !p e) := by
  simp only [Holds, List.mem_filter, Bool.not_eq_true', ← Bool.not_eq_true]
  refine ⟨fun h => ⟨fun e he => h e he.1, fun e he => h e he.1⟩, fun h e he => ?_⟩
  by_cases hp : p e = true
  · exact h.1 e ⟨he, hp⟩
  · exact h.2 e ⟨he, hp⟩

theorem keep_holds_nil (s : Multiset (Env V)) :
    keep (fun row => Holds I.toInterpretation row []) s = s :=
  keep_eq_self.2 fun _ _ => holds_nil

end Conjuncts

/-! ## Nodes -/

section Nodes

variable (child : LogicalOperator) (es : List Expression)

@[simp] theorem outputTables_makeFilterNode :
    (makeFilterNode child es).outputTables = child.outputTables := by
  cases es <;> rfl

@[simp] theorem inScope_makeFilterNode : inScope (makeFilterNode child es) = inScope child := by
  cases es <;> rfl

@[simp] theorem sortOf_makeFilterNode : sortOf (makeFilterNode child es) = sortOf child := by
  cases es <;> rfl

@[simp] theorem rows_makeFilterNode :
    rows I (makeFilterNode child es) =
      keep (fun row => Holds I.toInterpretation row es) (rows I child) := by
  cases es with
  | nil => exact (keep_holds_nil _).symm
  | cons e es => rfl

end Nodes

/-! ## Two tables -/

/-- Booleans, with two rows in every table. -/
def twoRows : PlanInterpretation Bool where
  toInterpretation := booleans
  table _ := {fun _ => some true, fun _ => none}
  aggregateOf _ _ := none
  unionColumn _ _ _ := ⟨0, 0⟩
  window _ _ _ _ rows := rows
  limit _ _ _ rows := rows
  delimGet _ _ := 0
  dependentJoin _ _ _ := 0

/-- A scan of a table. -/
def scan (tableIndex : Nat) : LogicalOperator := .get ⟨tableIndex, tableIndex, [], []⟩

/-- An equality of two columns. -/
def columnsEqual (a b : ColumnBinding) : Expression := function "=" 96 [columnRef a, columnRef b]

end FilterNodes
end PgYaap
