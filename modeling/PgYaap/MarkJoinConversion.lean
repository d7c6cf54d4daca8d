import PgYaap.FilterNodes

/-! # Markers and semi joins

A MARK join under a filter on its marker becomes a SEMI or an ANTI join. The join tells only
whether a row has a match, the marker also whether that is unknown: where no marker is NULL the
two agree, and a NULL marker has to pass the filters of an ANTI join and fail those of a SEMI
join. -/
namespace PgYaap
namespace MarkJoinConversion

open LogicalPlan Expression PlanMeaning ExpressionEvaluation BagJoins ThreeValuedLogic
open FilterNodes

/-! ## The conversion -/

mutual

/-- `ExtractMarkerFilterPolarity`. -/
def extractMarkerFilterPolarity (markIndex : Nat) : Expression → Option Bool
  | columnRef binding => if binding.tableIndex = markIndex then some true else none
  | conjunction boolExprType children =>
    if boolExprType ≠ 2 then none
    else (extractOnlyChildPolarity markIndex children).map not
  | function functionName _ children => do
    let positive ← extractOnlyChildPolarity markIndex children
    if functionName = "is_true" ∨ functionName = "is_not_false" then some positive
    else if functionName = "is_false" ∨ functionName = "is_not_true" then some !positive
    else none
  | _ => none

/-- The polarity of the only child. -/
def extractOnlyChildPolarity (markIndex : Nat) : List Expression → Option Bool
  | [e] => extractMarkerFilterPolarity markIndex e
  | _ => none

end

/-- `IsExistsStyleMarkJoinCandidate`. -/
def isExistsStyleMarkJoinCandidate (join : LogicalJoin) : Bool :=
  join.joinType = .mark && join.convertMarkToSemi

/-- `ConvertMarkJoinToSemiOrAnti`. -/
def convertMarkJoinToSemiOrAnti (join : LogicalJoin) (positive : Bool) : LogicalJoin :=
  { join with
    joinType := if positive then .semi else .anti
    invertResult := false
    hasMarkIndex := false
    markIndex := 2 ^ 64 - 1
    anyJoin := if join.operator = .comparisonJoin then join.anyJoin else false }

/-- `SimplifyExistsStyleMarkJoinFilter`. Filters that ask for the marker both ways leave the join
as it is. -/
def simplifyExistsStyleMarkJoinFilter (join : LogicalJoin) (filters : List Expression) :
    LogicalJoin × List Expression :=
  if isExistsStyleMarkJoinCandidate join then
    match filters.filterMap (extractMarkerFilterPolarity join.markIndex) with
    | [] => (join, filters)
    | positive :: others =>
      if others.all (· = positive) then
        (convertMarkJoinToSemiOrAnti join positive,
          filters.filter fun e => (extractMarkerFilterPolarity join.markIndex e).isNone)
      else (join, filters)
  else (join, filters)

/-! ## Markers -/

variable {V : Type} {I : PlanInterpretation V} {join : LogicalJoin} {left right : LogicalOperator}

/-- The truth that the marker of a left row has. -/
noncomputable def marker (I : PlanInterpretation V) (join : LogicalJoin)
    (left right : LogicalOperator) (a : Env V) : Truth :=
  someTruth ((rows I right).map fun b =>
    allOf (join.conditions.map (truthOf I.toInterpretation (pair (inScope left) a b))))

/-- A left row with its marker. -/
noncomputable def marked (I : PlanInterpretation V) (join : LogicalJoin)
    (left right : LogicalOperator) (a : Env V) : Env V :=
  markRow I join (inScope left) (rows I right) a

theorem marked_apply (hindex : join.hasMarkIndex = true) {a : Env V} {c : ColumnBinding}
    (hc : c.tableIndex = join.markIndex) :
    marked I join left right a c = I.ofTruth (marker I join left right a) := by
  rw [marked, markRow, if_pos ⟨hindex, hc⟩, marker]

/-- The marker is true where the row has a match. -/
theorem marker_eq_true_iff {a : Env V} :
    marker I join left right a = some true ↔
      matchesOf (fun a b => Holds I.toInterpretation (pair (inScope left) a b) join.conditions)
        (rows I right) a ≠ 0 := by
  have hmem : marker I join left right a = some true ↔
      ∃ b ∈ rows I right,
        allOf (join.conditions.map (truthOf I.toInterpretation (pair (inScope left) a b))) =
          some true := by
    rw [marker, someTruth, ← Multiset.mem_map]
    constructor
    · intro h
      by_contra hnot
      rw [if_neg hnot] at h
      split at h <;> cases h
    · exact fun h => if_pos h
  rw [hmem, matchesOf, ne_eq, keep_eq_zero]
  push Not
  exact exists_congr fun b => and_congr_right fun _ => holds_iff_allOf.symm

mutual

/-- **A marker filter on a marker that is known** is true for one of its values and false for the
other. -/
theorem truthOf_markerFilter (hindex : join.hasMarkIndex = true) {a : Env V} {known : Bool}
    (hknown : marker I join left right a = some known) {e : Expression} {positive : Bool}
    (he : extractMarkerFilterPolarity join.markIndex e = some positive) :
    truthOf I.toInterpretation (marked I join left right a) e = some (known == positive) := by
  cases e with
  | columnRef b =>
    rw [extractMarkerFilterPolarity] at he
    split at he
    case isTrue hb =>
      cases he
      rw [truthOf, value, marked_apply hindex hb, I.truth_ofTruth, hknown, beq_true]
    case isFalse => cases he
  | conjunction boolExprType children =>
    rw [extractMarkerFilterPolarity] at he
    split at he
    case isTrue => cases he
    case isFalse hnot =>
      obtain ⟨inner, hinner, rfl⟩ := Option.map_eq_some_iff.1 he
      obtain ⟨child, rfl, htruth⟩ := truthOf_onlyChild hindex hknown hinner
      rw [CommonConjuncts.truthOf_conjunction, not_not.1 hnot]
      rw [List.map_singleton, htruth]
      cases known <;> cases inner <;> rfl
  | function functionName opOid children =>
    rw [extractMarkerFilterPolarity] at he
    obtain ⟨inner, hinner, hpolarity⟩ := Option.bind_eq_some_iff.1 he
    obtain ⟨child, hchildren, htruth⟩ := truthOf_onlyChild hindex hknown hinner
    rw [truthOf] at htruth
    rw [hchildren, truthOf, value, values, values, functionValue, htruth]
    split at hpolarity
    case isTrue hname =>
      rw [← Option.some.inj hpolarity]
      rcases hname with hname | hname <;> cases known <;> cases inner <;>
        simp [hname, booleanTest, I.truth_ofTruth]
    case isFalse =>
      split at hpolarity
      case isTrue hname =>
        rw [← Option.some.inj hpolarity]
        rcases hname with hname | hname <;> cases known <;> cases inner <;>
          simp [hname, booleanTest, I.truth_ofTruth]
      case isFalse => cases hpolarity
  | constant _ _ | aggregate _ _ _ _ | subquery _ _ _ | opaqueExpr =>
    simp [extractMarkerFilterPolarity] at he

theorem truthOf_onlyChild (hindex : join.hasMarkIndex = true) {a : Env V} {known : Bool}
    (hknown : marker I join left right a = some known) {children : List Expression}
    {positive : Bool}
    (he : extractOnlyChildPolarity join.markIndex children = some positive) :
    ∃ child, children = [child] ∧
      truthOf I.toInterpretation (marked I join left right a) child = some (known == positive) := by
  match children, he with
  | [child], he => exact ⟨child, rfl, truthOf_markerFilter hindex hknown he⟩

end

/-- The filters on a known marker hold where it is as they want it. -/
theorem holds_markerFilters (hindex : join.hasMarkIndex = true) {a : Env V} {known : Bool}
    (hknown : marker I join left right a = some known) {fs : List Expression} {positive : Bool}
    (hne : fs ≠ [])
    (hfs : ∀ e ∈ fs, extractMarkerFilterPolarity join.markIndex e = some positive) :
    Holds I.toInterpretation (marked I join left right a) fs ↔ known = positive := by
  obtain ⟨e₀, he₀⟩ := List.exists_mem_of_ne_nil fs hne
  have htruth := fun e he => truthOf_markerFilter hindex hknown (hfs e he)
  constructor
  · intro h
    have h₀ := (htruth e₀ he₀).symm.trans (h e₀ he₀)
    simpa using h₀
  · rintro rfl e he
    rw [htruth e he, beq_self_eq_true]

theorem convert_eq (hcandidate : isExistsStyleMarkJoinCandidate join = true) {fs : List Expression}
    {positive : Bool} (hne : fs ≠ [])
    (hfs : ∀ e ∈ fs, extractMarkerFilterPolarity join.markIndex e = some positive) :
    simplifyExistsStyleMarkJoinFilter join fs =
      (convertMarkJoinToSemiOrAnti join positive, []) := by
  have hall : fs.filterMap (extractMarkerFilterPolarity join.markIndex) =
      fs.map fun _ => positive := by
    rw [List.filterMap_congr hfs]
    exact congrFun (List.filterMap_eq_map (f := fun _ => positive)) fs
  obtain ⟨e₀, es, rfl⟩ := List.exists_cons_of_ne_nil hne
  rw [simplifyExistsStyleMarkJoinFilter, if_pos hcandidate, hall, List.map_cons]
  have hothers : (es.map fun _ => positive).all (· = positive) = true := by simp
  have hrest : (e₀ :: es).filter
      (fun e => (extractMarkerFilterPolarity join.markIndex e).isNone) = [] :=
    List.filter_eq_nil_iff.2 fun e he => by simp [hfs e he]
  simp only [hothers, if_true, hrest]

/-! ## Rows -/

/-- A MARK join of two tables on an equality of their first columns. -/
def markJoin : LogicalJoin :=
  ⟨.comparisonJoin, .mark, false, 9, true, true, false, [columnsEqual ⟨0, 0⟩ ⟨1, 0⟩], [], false,
    false⟩

end MarkJoinConversion
end PgYaap
