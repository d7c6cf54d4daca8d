import PgYaap.FilterNodes
import PgYaap.PlanTraversal

/-! # Filters of scans

`ScanFilterFolding` moves a filter above a scan into the scan, without the conjuncts whose
fingerprints the scan already has. -/
namespace PgYaap
namespace ScanFilters

open LogicalPlan Expression ExpressionFingerprints PlanMeaning ExpressionEvaluation BagJoins
open FilterNodes PlanTraversal

/-! ## The pass -/

/-- `AppendUniqueFilter`. -/
def appendUniqueFilter (filters : List Expression) (e : Expression) : List Expression :=
  if filters.any fun existing => expressionFingerprint existing = expressionFingerprint e then
    filters
  else filters ++ [e]

/-- Its calls one after the other. -/
def appendUniqueFilters (filters expressions : List Expression) : List Expression :=
  expressions.foldl appendUniqueFilter filters

/-- `FoldIntoGet`, for a scan. -/
def foldIntoGet (expressions : List Expression) (g : LogicalGet) : LogicalOperator :=
  .get { g with filters := appendUniqueFilters g.filters expressions }

/-- The end of `Rewrite`. -/
def step : LogicalOperator → Option LogicalOperator
  | .filter expressions (.get g) => some (foldIntoGet expressions g)
  | plan => some plan

/-- `Rewrite`. -/
def rewrite : LogicalOperator → Option LogicalOperator := bottomUp step

/-! ## The filters of a scan -/

section Filters

variable {filters es : List Expression}

/-- Filters are only appended. -/
theorem exists_added (filters es : List Expression) :
    ∃ added, added.Sublist es ∧ appendUniqueFilters filters es = filters ++ added := by
  induction es generalizing filters with
  | nil => exact ⟨[], List.Sublist.refl _, (List.append_nil _).symm⟩
  | cons e es ih =>
    obtain ⟨added, hsub, heq⟩ := ih (appendUniqueFilter filters e)
    rw [appendUniqueFilters] at heq
    rw [appendUniqueFilters, List.foldl_cons, heq, appendUniqueFilter]
    split
    · exact ⟨added, hsub.cons e, rfl⟩
    · exact ⟨e :: added, hsub.cons_cons e, List.append_assoc filters [e] added⟩

/-- Every conjunct has a filter with its fingerprint. -/
theorem exists_fingerprint {e : Expression} (he : e ∈ es) :
    ∃ f ∈ appendUniqueFilters filters es, expressionFingerprint f = expressionFingerprint e := by
  induction es generalizing filters with
  | nil => exact absurd he List.not_mem_nil
  | cons e' es ih =>
    rcases List.mem_cons.1 he with rfl | he
    · obtain ⟨f, hf, hsame⟩ : ∃ f ∈ appendUniqueFilter filters e,
          expressionFingerprint f = expressionFingerprint e := by
        rw [appendUniqueFilter]
        split
        case isTrue hany =>
          obtain ⟨f, hf, hsame⟩ := List.any_eq_true.1 hany
          exact ⟨f, hf, of_decide_eq_true hsame⟩
        case isFalse => exact ⟨e, List.mem_append_right _ (List.mem_singleton_self e), rfl⟩
      obtain ⟨added, _, heq⟩ := exists_added (appendUniqueFilter filters e) es
      refine ⟨f, ?_, hsame⟩
      rw [appendUniqueFilters, List.foldl_cons, ← appendUniqueFilters, heq]
      exact List.mem_append_left _ hf
    · exact ih he

end Filters

variable {V : Type} {I : PlanInterpretation V}

theorem rows_get (g : LogicalGet) (filters : List Expression) :
    rows I (.get { g with filters }) = (keep (fun row => Holds I.toInterpretation row filters)
      ((I.table g.relid).map (tableRow g))).map (restrict (inScope (.get g))) := rfl

/-! ## Rows -/

/-- Above a scan the filters are in scope, and what has the fingerprint of another filter has its
truth. -/
def Foldable (I : PlanInterpretation V) : LogicalOperator → Prop
  | .filter es (.get g) =>
    (∀ e ∈ es, InScope (.get g) e) ∧
      ∀ e ∈ es, ∀ f ∈ g.filters ++ es, expressionFingerprint f = expressionFingerprint e →
        ∀ row, truthOf I.toInterpretation row f = truthOf I.toInterpretation row e
  | _ => True

theorem foldIntoGet_rows {es : List Expression} {g : LogicalGet}
    (h : Foldable I (.filter es (.get g))) :
    rows I (foldIntoGet es g) = rows I (.filter es (.get g)) := by
  obtain ⟨hscope, hfaithful⟩ := h
  obtain ⟨added, hsub, heq⟩ := exists_added g.filters es
  rw [foldIntoGet, heq, rows_get, rows, rows]
  generalize (I.table g.relid).map (tableRow g) = s
  rw [keep_map, keep_keep]
  refine congrArg _ (keep_congr fun row _ => ?_)
  have hrow : Holds I.toInterpretation (restrict (inScope (.get g)) row) es ↔
      Holds I.toInterpretation row es :=
    holds_congr fun e he b hb => by rw [restrict, if_pos (hscope e he b hb)]
  rw [holds_append, hrow]
  refine and_congr_right fun hfilters => ⟨fun hadded e he => ?_, fun hall e he =>
    hall e (hsub.subset he)⟩
  -- a conjunct left out has a filter of the same truth
  obtain ⟨f, hf, hsame⟩ := @exists_fingerprint g.filters es e he
  rw [heq] at hf
  have hmem : f ∈ g.filters ++ es := (List.mem_append.1 hf).elim (List.mem_append_left _)
    fun hf => List.mem_append_right _ (hsub.subset hf)
  rw [← hfaithful e he f hmem hsame row]
  exact (List.mem_append.1 hf).elim (hfilters f) (hadded f)

/-- **Scan filter folding** keeps the rows of every plan with faithful fingerprints. -/
theorem folding_keeps_rows {plan : LogicalOperator} (h : EachStep step (Foldable I) plan) :
    ∃ plan', rewrite plan = some plan' ∧ rows I plan' = rows I plan := by
  have hstep : ∀ plan, Foldable I plan → ∃ plan', step plan = some plan' ∧ SameRows I plan plan' := by
    intro plan h
    unfold step
    split
    case h_1 es g =>
      exact ⟨foldIntoGet es g, rfl, rfl, rfl, rfl, foldIntoGet_rows h⟩
    case h_2 => exact ⟨_, rfl, SameRows.refl _⟩
  obtain ⟨plan', hplan, hsame⟩ := bottomUp_sameRows hstep h
  exact ⟨plan', hplan, hsame.rows⟩

theorem folding_keeps_rows_scan :
    ∃ plan', rewrite (.filter [columnRef ⟨0, 0⟩, columnRef ⟨0, 0⟩] (scan 0)) = some plan' ∧
      rows twoRows plan' =
        rows twoRows (.filter [columnRef ⟨0, 0⟩, columnRef ⟨0, 0⟩] (scan 0)) := by
  refine folding_keeps_rows ⟨trivial, fun c hc => ?_⟩
  have hscan : c = scan 0 := (Option.some.inj hc).symm
  subst hscan
  refine ⟨?_, ?_⟩
  · simp [InScope, inScope, bindings]
  · simp

end ScanFilters
end PgYaap
