import PgYaap.FilterNodes
import PgYaap.PlanTraversal

/-! # Join predicates of filtered products

`JoinPredicateExtraction` makes a join of a filter above a cross product, on those of its conjuncts
that equate an expression over the one side with an expression over the other. The conjuncts are
moved out of the filter in any case, and where none of them is a join condition the filter is
returned without them. -/
namespace PgYaap
namespace JoinPredicateExtraction

open LogicalPlan Expression CommonConjuncts PlanMeaning ExpressionEvaluation BagJoins
open FilterNodes PlanTraversal

/-! ## The pass -/

/-- `IsEquiJoinPredicate`. -/
def isEquiJoinPredicate (leftTables rightTables : Finset Nat) : Expression → Bool
  | function functionName _ [a, b] =>
    functionName = "=" ∧ a.referencedTables.Nonempty ∧ b.referencedTables.Nonempty ∧
      (a.referencedTables ⊆ leftTables ∧ b.referencedTables ⊆ rightTables ∨
        a.referencedTables ⊆ rightTables ∧ b.referencedTables ⊆ leftTables)
  | _ => false

/-- `LogicalComparisonJoin(0)`: an inner join, with the defaults of its fields. -/
def comparisonJoin (conditions : List Expression) : LogicalJoin where
  operator := .comparisonJoin
  joinType := .inner
  dependent := false
  markIndex := 2 ^ 64 - 1
  hasMarkIndex := false
  convertMarkToSemi := true
  invertResult := false
  conditions := conditions
  correlatedColumns := []
  performDelim := true
  anyJoin := false

/-- The conjuncts of a filter that are join conditions, or those that are not. -/
def joinConditions (factored : List Expression) (left right : LogicalOperator) (wanted : Bool) :
    List Expression :=
  (splitConjunctionList factored).filter fun e =>
    isEquiJoinPredicate left.outputTables right.outputTables e = wanted

/-- `ExtractFromFilter`. -/
def extractFromFilter (expressions : List Expression) (left right : LogicalOperator) :
    Option LogicalOperator := do
  let factored ← expressions.mapM factorCommonDisjunctConjuncts
  if (joinConditions factored left right true).isEmpty then
    -- the entries of the filter are null pointers by now, which every later split drops
    return .filter [] (.crossProduct left right)
  return makeFilterNode (.join (comparisonJoin (joinConditions factored left right true)) left right)
    (joinConditions factored left right false)

/-- The end of `Rewrite`. -/
def step : LogicalOperator → Option LogicalOperator
  | .filter expressions (.crossProduct left right) => extractFromFilter expressions left right
  | plan => some plan

/-- `Rewrite`. -/
def rewrite : LogicalOperator → Option LogicalOperator := bottomUp step

/-! ## Rows -/

variable {V : Type} {I : PlanInterpretation V}

/-- Factoring an expression keeps its truth. -/
def FactorsRight (I : PlanInterpretation V) (e : Expression) : Prop :=
  ∃ e', factorCommonDisjunctConjuncts e = some e' ∧
    ∀ row, truthOf I.toInterpretation row e' = truthOf I.toInterpretation row e

section Factored

variable {es : List Expression} {left right : LogicalOperator}

theorem exists_factored (h : ∀ e ∈ es, FactorsRight I e) :
    ∃ factored, es.mapM factorCommonDisjunctConjuncts = some factored ∧
      ∀ row, Holds I.toInterpretation row factored ↔ Holds I.toInterpretation row es := by
  induction es with
  | nil => exact ⟨[], rfl, fun _ => Iff.rfl⟩
  | cons e es ih =>
    obtain ⟨e', he', htruth⟩ := h e List.mem_cons_self
    obtain ⟨factored, hfactored, hholds⟩ := ih fun e he => h e (List.mem_cons_of_mem _ he)
    refine ⟨e' :: factored, ?_, fun row => ?_⟩
    · rw [List.mapM_cons, he', hfactored]
      rfl
    · rw [holds_cons, holds_cons, htruth, hholds]

theorem holds_joinConditions (factored : List Expression) (left right : LogicalOperator)
    (row : Env V) :
    Holds I.toInterpretation row (joinConditions factored left right true) ∧
        Holds I.toInterpretation row (joinConditions factored left right false) ↔
      Holds I.toInterpretation row factored := by
  rw [← holds_split factored, holds_filter_not (splitConjunctionList factored)
    (isEquiJoinPredicate left.outputTables right.outputTables)]
  simp only [joinConditions, Bool.decide_eq_true, Bool.decide_eq_false]

variable {factored : List Expression}

/-- Without a join condition nothing is left in the filter. -/
theorem extractFromFilter_none (hfactored : es.mapM factorCommonDisjunctConjuncts = some factored)
    (hnone : joinConditions factored left right true = []) :
    extractFromFilter es left right = some (.filter [] (.crossProduct left right)) := by
  rw [extractFromFilter, hfactored]
  simp only [Option.bind_eq_bind, Option.bind_some, hnone, List.isEmpty_nil, if_true]
  rfl

/-- With one, the product becomes a join. -/
theorem extractFromFilter_join (hfactored : es.mapM factorCommonDisjunctConjuncts = some factored)
    (hsome : joinConditions factored left right true ≠ []) :
    extractFromFilter es left right = some (makeFilterNode
      (.join (comparisonJoin (joinConditions factored left right true)) left right)
      (joinConditions factored left right false)) := by
  rw [extractFromFilter, hfactored]
  simp only [Option.bind_eq_bind, Option.bind_some, List.isEmpty_iff, hsome, if_false]
  rfl

theorem rows_emptied :
    rows I (.filter [] (.crossProduct left right)) = rows I (.filter es (.crossProduct left right)) ↔
      ∀ row ∈ rows I (.crossProduct left right), Holds I.toInterpretation row es := by
  rw [rows, keep_holds_nil, rows, eq_comm (a := rows I (.crossProduct left right)), keep_eq_self]

/-- The join and what stays above it have all conjuncts, whatever these are. -/
theorem rows_joined
    (hholds : ∀ row, Holds I.toInterpretation row factored ↔ Holds I.toInterpretation row es) :
    rows I (makeFilterNode
        (.join (comparisonJoin (joinConditions factored left right true)) left right)
        (joinConditions factored left right false)) =
      rows I (.filter es (.crossProduct left right)) := by
  -- on both sides the pairs of rows on which all conditions hold
  rw [rows_makeFilterNode, rows_join rfl, joinRows_inner rfl, rows, rows, keep_innerJoin,
    keep_innerJoin]
  refine innerJoin_congr fun a b => ?_
  rw [true_and, ← hholds, ← holds_joinConditions factored left right]
  rfl

end Factored

/-- At a filtered product there is a join condition, or the filter holds on the whole product. -/
def Extractable (I : PlanInterpretation V) : LogicalOperator → Prop
  | .filter es (.crossProduct left right) =>
    (∀ e ∈ es, FactorsRight I e) ∧
      ((∀ factored, es.mapM factorCommonDisjunctConjuncts = some factored →
          joinConditions factored left right true ≠ []) ∨
        ∀ row ∈ rows I (.crossProduct left right), Holds I.toInterpretation row es)
  | _ => True

theorem extractFromFilter_shape {es : List Expression} {left right plan' : LogicalOperator}
    (h : extractFromFilter es left right = some plan') :
    plan'.outputTables = left.outputTables ∪ right.outputTables ∧
      inScope plan' = inScope (.crossProduct left right) ∧ sortOf plan' = [] := by
  obtain ⟨factored, hfactored, h⟩ := Option.bind_eq_some_iff.1 h
  split at h
  · cases h
    exact ⟨rfl, rfl, rfl⟩
  · cases h
    rw [outputTables_makeFilterNode, inScope_makeFilterNode, sortOf_makeFilterNode]
    refine ⟨rfl, ?_, rfl⟩
    funext c
    simp only [inScope, comparisonJoin]

theorem step_sameRows {plan : LogicalOperator} (h : Extractable I plan) :
    ∃ plan', step plan = some plan' ∧ SameRows I plan plan' := by
  unfold step
  split
  case h_1 es left right =>
    obtain ⟨hfactors, hextract⟩ := h
    obtain ⟨factored, hfactored, hholds⟩ := exists_factored hfactors
    obtain ⟨plan', hplan, hrows⟩ : ∃ plan', extractFromFilter es left right = some plan' ∧
        rows I plan' = rows I (.filter es (.crossProduct left right)) := by
      by_cases hnone : joinConditions factored left right true = []
      -- the filter that is lost did not take a row away
      · have hall := hextract.resolve_left fun hsome => hsome factored hfactored hnone
        exact ⟨_, extractFromFilter_none hfactored hnone, rows_emptied.2 hall⟩
      · exact ⟨_, extractFromFilter_join hfactored hnone, rows_joined hholds⟩
    obtain ⟨htables, hscope, hsort⟩ := extractFromFilter_shape hplan
    exact ⟨plan', hplan, htables, hscope, hsort, hrows⟩
  case h_2 => exact ⟨_, rfl, SameRows.refl _⟩

/-- The equality of the first columns of two tables. -/
def firstColumns : Expression := columnsEqual ⟨0, 0⟩ ⟨1, 0⟩

theorem factorsRight_firstColumns : ∀ e ∈ [firstColumns], FactorsRight twoRows e := by
  rw [List.forall_mem_singleton]
  exact ⟨firstColumns, rfl, fun _ => rfl⟩

theorem joinConditions_firstColumns :
    joinConditions [firstColumns] (scan 0) (scan 1) true = [firstColumns] :=
  rfl

end JoinPredicateExtraction
end PgYaap
