import PgYaap.DecorrelatedLimitRows

/-! # When the decorrelated LIMIT is right

The filter on the row number is LIMIT and OFFSET on each group, so the rewrite is right when
the rows that an outer row lifts are the first rows of one group; and only then, apart from
limits that leave nothing or everything. A LIMIT or OFFSET of NULL leaves no row, and an
outer side with inner columns lifts a part of a group. -/
namespace PgYaap
namespace DecorrelatedLimit

open LogicalPlan Expression ExpressionEvaluation RankedRows

variable {pushDownCorrelatedNode : LogicalOperator → Option (LogicalOperator × List Expression)}
  {windowTableIndex : Nat} {allowedTables : Finset Nat} {limitCount limitOffset : Option Expression}
  {child pushed plan : LogicalOperator} {childLifted lifted : List Expression}
  {V : Type} [LinearOrder V] {I : Interpretation V} {B : Bigints I}

/-! ## The condition -/

/-- **When the rewrite is right.** LIMIT and OFFSET are not negative, and they leave nothing,
or there is nothing to limit, or they bound nothing, or every number is known and in range
and the rows an outer row lifts are the first rows of one group. -/
def LimitsOneGroup (I : Interpretation V) (B : Bigints I) (allowedTables : Finset Nat)
    (limitCount limitOffset : Option Expression) (orders childLifted : List Expression) : Prop :=
  (∀ n ∈ limitValue I B limitCount, 0 ≤ n) ∧ (∀ m ∈ limitValue I B limitOffset, 0 ≤ m) ∧
    (limitValue I B limitCount = some 0 ∨
      (∀ outer row, ¬Lifted I allowedTables childLifted outer row) ∨
      (limitCount = none ∧ limitValue I B limitOffset = some 0) ∨
      (ComparesRowNumbers I B limitCount limitOffset ∧ ∀ outer,
        FirstOfGroup (fun row => values I row (innerSides allowedTables childLifted))
          (Precedes I orders) (Lifted I allowedTables childLifted outer)))

theorem not_withinLimit_zero {offset : Option Int} {rank : Nat} :
    ¬WithinLimit (some 0) offset rank := by
  rintro ⟨hlt, hle⟩
  have hle' := hle 0 rfl
  omega

variable {orders : List Expression} {rownumFilter : Expression}

section Condition

variable (hindex : windowTableIndex ∉ allowedTables)
  (hcount : ∀ e ∈ limitCount, IsBigint I B e) (hoffset : ∀ e ∈ limitOffset, IsBigint I B e)
  (hfilter : buildDecorrelatedLimitRowNumberFilter limitCount limitOffset windowTableIndex =
    some rownumFilter)
include hindex hcount hoffset hfilter

theorem gives_of_limitsOneGroup
    (h : LimitsOneGroup I B allowedTables limitCount limitOffset orders childLifted) :
    GivesOwnLimit I B windowTableIndex allowedTables limitCount limitOffset orders pushed
      childLifted (.filter [rownumFilter] (.window windowTableIndex ["row_number"]
        (innerSides allowedTables childLifted) orders pushed)) childLifted := by
  obtain ⟨hcountPos, hoffsetPos, hcases⟩ := h
  intro rows out hreturns outer
  obtain ⟨arranged, hperm, hsorted, rfl⟩ := returns_filter_window_iff.1 hreturns
  have hown : (arranged.filter fun row => Lifted I allowedTables childLifted outer row).Perm
      (rows.filter fun row => Lifted I allowedTables childLifted outer row) := hperm.filter _
  have hresult := limitRows_of_nonneg hcountPos hoffsetPos
    (arranged.filter fun row => Lifted I allowedTables childLifted outer row)
  refine ⟨_, ⟨_, hown, hsorted.filter _, hresult⟩, ?_⟩
  rcases hcases with hzero | hnothing | ⟨hnone, hskip⟩ | ⟨hknown, hfirst⟩
  · -- LIMIT 0
    rw [hzero, Option.elim_some, Int.toNat_zero, List.take_zero]
    by_cases hknown : ComparesRowNumbers I B limitCount limitOffset
    · rw [filter_lifted_of_compares _ _ _ hindex hcount hoffset hfilter hknown, hzero,
        List.filter_eq_nil_iff.2 fun x _ hx => not_withinLimit_zero (of_decide_eq_true hx)]
      exact List.Perm.refl _
    · rw [filter_rownum_eq_nil hcount hoffset hfilter hknown]
      exact List.Perm.refl _
  · -- no row is lifted
    have hnil : ∀ rows : List (Env V),
        (rows.filter fun row => Lifted I allowedTables childLifted outer row) = [] :=
      fun rows => List.filter_eq_nil_iff.2 fun row _ hrow =>
        hnothing outer row (of_decide_eq_true hrow)
    rw [hnil, hnil, List.drop_nil]
    cases limitValue I B limitCount with
    | none => exact List.Perm.refl _
    | some n => rw [Option.elim_some, List.take_nil]
  · -- OFFSET 0 alone
    have hknown : ComparesRowNumbers I B limitCount limitOffset := by
      refine ⟨fun h => absurd hnone h, fun _ => by rw [hskip]; exact Option.some_ne_none 0, ?_⟩
      rw [hnone]
      exact nofun
    have hall : ∀ x ∈ ranked (fun row => values I row (innerSides allowedTables childLifted))
        arranged, decide (WithinLimit (limitValue I B limitCount) (limitValue I B limitOffset)
          x.2) = true := by
      intro x hx
      rw [hnone, hskip, decide_eq_true_iff]
      exact ⟨Int.natCast_pos.2 (pos_of_mem_rankFrom hx), nofun⟩
    have hfst := congrArg (List.filter fun row => Lifted I allowedTables childLifted outer row)
      (map_fst_rankFrom (fun row => values I row (innerSides allowedTables childLifted)) []
        arranged)
    rw [List.filter_map] at hfst
    rw [filter_lifted_of_compares _ _ _ hindex hcount hoffset hfilter hknown,
      List.filter_eq_self.2 hall, hnone, hskip]
    exact List.Perm.of_eq (congrArg (List.map (withoutRownum windowTableIndex)) hfst)
  · have hranked := map_filter_ranked (hfirst outer) hsorted hcountPos hoffsetPos
    rw [filter_lifted_of_compares _ _ _ hindex hcount hoffset hfilter hknown,
      Option.some.inj (hranked.trans hresult)]

/-- The number of rows for one outer row, when all its rows are `arranged`. -/
theorem length_of_gives
    (h : GivesOwnLimit I B windowTableIndex allowedTables limitCount limitOffset orders pushed
      childLifted (.filter [rownumFilter] (.window windowTableIndex ["row_number"]
        (innerSides allowedTables childLifted) orders pushed)) childLifted)
    {arranged : List (Env V)} (hsorted : arranged.Pairwise (Precedes I orders)) (outer : Env V) :
    (∀ n ∈ limitValue I B limitCount, 0 ≤ n) ∧ (∀ m ∈ limitValue I B limitOffset, 0 ≤ m) ∧
    (¬ComparesRowNumbers I B limitCount limitOffset →
      limitLength (limitValue I B limitCount) (limitValue I B limitOffset)
        (arranged.countP fun row => Lifted I allowedTables childLifted outer row) = 0) ∧
    (ComparesRowNumbers I B limitCount limitOffset →
      (ranked (fun row => values I row (innerSides allowedTables childLifted)) arranged).countP
        (fun x => Lifted I allowedTables childLifted outer x.1 ∧
          WithinLimit (limitValue I B limitCount) (limitValue I B limitOffset) x.2) =
      limitLength (limitValue I B limitCount) (limitValue I B limitOffset)
        (arranged.countP fun row => Lifted I allowedTables childLifted outer row)) := by
  obtain ⟨result, ⟨own, hown, -, hlimit⟩, hperm⟩ := h arranged _
    (returns_filter_window_iff.2 ⟨arranged, .refl _, hsorted, rfl⟩) outer
  have hlength := hperm.length_eq
  rw [List.length_map, List.length_map, length_limitRows hlimit, hown.length_eq] at hlength
  obtain ⟨hcountPos, hoffsetPos⟩ := nonneg_of_limitRows hlimit
  refine ⟨hcountPos, hoffsetPos, fun hunknown => ?_, fun hknown => ?_⟩
  · rw [filter_rownum_eq_nil hcount hoffset hfilter hunknown] at hlength
    rw [List.countP_eq_length_filter]
    exact hlength.symm
  · have hkept := congrArg List.length (filter_lifted_of_compares childLifted
      (fun row => values I row (innerSides allowedTables childLifted)) arranged
      hindex hcount hoffset hfilter hknown outer)
    rw [List.length_map, hlength, List.length_map, List.length_map, List.filter_filter] at hkept
    rw [List.countP_eq_length_filter, List.countP_eq_length_filter, hkept]
    refine congrArg List.length (List.filter_congr fun x _ => ?_)
    rw [Bool.decide_and]

theorem limitsOneGroup_of_gives
    (h : GivesOwnLimit I B windowTableIndex allowedTables limitCount limitOffset orders pushed
      childLifted (.filter [rownumFilter] (.window windowTableIndex ["row_number"]
        (innerSides allowedTables childLifted) orders pushed)) childLifted) :
    LimitsOneGroup I B allowedTables limitCount limitOffset orders childLifted := by
  have hlength := fun {arranged : List (Env V)}
      (hsorted : arranged.Pairwise (Precedes I orders)) outer =>
    length_of_gives hindex hcount hoffset hfilter h hsorted outer
  have htotal : ∀ row row' : Env V, Precedes I orders row row' ∨ Precedes I orders row' row :=
    fun row row' => @le_total (List (WithTop V)) _ _ _
  obtain ⟨hcountPos, hoffsetPos, -⟩ := hlength List.Pairwise.nil fun _ => none
  refine ⟨hcountPos, hoffsetPos, ?_⟩
  by_contra hnone
  rw [not_or, not_or, not_or] at hnone
  obtain ⟨hnonzero, hsome, hbound, hgroup⟩ := hnone
  push Not at hsome
  obtain ⟨outer, row, hrow⟩ := hsome
  have hcountLt : ∀ n ∈ limitValue I B limitCount, 0 < n := by
    intro n hn
    refine lt_of_le_of_ne (hcountPos n hn) ?_
    rintro rfl
    exact hnonzero hn
  have hoffsetPos' : 0 ≤ (limitValue I B limitOffset).getD 0 := by
    cases hskip : limitValue I B limitOffset with
    | none => exact le_rfl
    | some m => exact hoffsetPos m hskip
  -- one row more than the OFFSET skips
  have hknown : ComparesRowNumbers I B limitCount limitOffset := by
    by_contra hunknown
    have hsorted : (List.replicate (((limitValue I B limitOffset).getD 0).toNat + 1) row).Pairwise
        (Precedes I orders) :=
      List.pairwise_replicate.2 (Or.inr ((htotal row row).elim id id))
    have hzero := (hlength hsorted outer).2.2.1 hunknown
    rw [List.countP_replicate, if_pos (by simpa using hrow), limitLength] at hzero
    cases hvalue : limitValue I B limitCount with
    | none =>
      rw [hvalue, Option.elim_none] at hzero
      omega
    | some n =>
      have hpos := hcountLt n hvalue
      rw [hvalue, Option.elim_some] at hzero
      omega
  refine hgroup ⟨hknown, fun outer => ?_⟩
  refine firstOfGroup_of_lengths htotal hcountLt hoffsetPos' ?_
    fun arranged hsorted => (hlength hsorted outer).2.2.2 hknown
  intro hnull hskip
  have hnocount : limitCount = none := by
    by_contra hcount'
    exact hknown.count_known hcount' hnull
  cases hvalue : limitValue I B limitOffset with
  | none =>
    have hnooffset : limitOffset = none := by
      by_contra hoffset'
      exact hknown.offset_known hoffset' hvalue
    rw [hnocount, hnooffset] at hfilter
    exact (Option.some_ne_none _ hfilter.symm).elim
  | some m =>
    rw [hvalue, Option.getD_some] at hskip
    rw [hskip] at hvalue
    exact hbound ⟨hnocount, hvalue⟩

end Condition

/-- **LIMIT of a correlated subquery.** The window and the filter give every outer row what
its own LIMIT may return, whatever the rows of the child, if and only if they limit one
group for every outer row. -/
theorem pushDownLimit_givesOwnLimit_iff
    (hindex : windowTableIndex ∉ allowedTables)
    (hcount : ∀ e ∈ limitCount, IsBigint I B e) (hoffset : ∀ e ∈ limitOffset, IsBigint I B e)
    (hcorrelated : subtreeHasCorrelatedReferences allowedTables (takeOrder child).2 = true)
    (hpushed : pushDownCorrelatedNode (takeOrder child).2 = some (pushed, childLifted))
    (hplan : pushDownLimit pushDownCorrelatedNode windowTableIndex allowedTables limitCount
      limitOffset child = some (plan, lifted)) :
    GivesOwnLimit I B windowTableIndex allowedTables limitCount limitOffset (takeOrder child).1
        pushed childLifted plan lifted ↔
      LimitsOneGroup I B allowedTables limitCount limitOffset (takeOrder child).1 childLifted := by
  obtain ⟨rfl, rownumFilter, hfilter, rfl⟩ := pushDownLimit_eq_some hcorrelated hpushed hplan
  constructor
  · exact limitsOneGroup_of_gives hindex hcount hoffset hfilter
  · exact gives_of_limitsOneGroup hindex hcount hoffset hfilter

/-! ## A subquery over one table

`SELECT i.b FROM i WHERE i.a = o.x ORDER BY i.b LIMIT …` for an outer table 1 with the column
`x` and an inner table 2 with the columns `a` and `b`. -/

/-- Whole numbers with the operators of the filter, truth as 0 and 1. -/
def wholeNumbers : Interpretation Int where
  constant digits :=
    some (digits.toList.foldl (fun n digit => 10 * n + (digit.toNat - '0'.toNat : Nat)) 0)
  function functionName _ args := match args with
    | [some m, some n] =>
      if functionName = "=" then some (if m = n then 1 else 0)
      else if functionName = "<=" then some (if m ≤ n then 1 else 0)
      else if functionName = ">" then some (if n < m then 1 else 0)
      else if FitsBigint (m + n) then some (m + n)
      else none
    | _ => none
  aggregate _ _ _ _ := none
  subquery _ _ _ := none
  ofTruth t := t.map fun b => if b then 1 else 0
  truth v := v.map fun n => decide (n ≠ 0)
  truth_ofTruth t := by
    cases t with
    | none => rfl
    | some b => cases b <;> rfl

/-- The numbers among the whole numbers. -/
def wholeNumbersBigints : Bigints wholeNumbers where
  ofInt n := n
  toInt n := n
  toInt_ofInt _ := rfl
  le_ofInt m n := by
    by_cases h : m ≤ n <;> simp [wholeNumbers, h]
  gt_ofInt m n := by
    by_cases h : n < m <;> simp [wholeNumbers, h]
  le_null v := by cases v <;> rfl
  gt_null v := by cases v <;> rfl
  truth_null := rfl
  add_ofInt m n h := by simp [wholeNumbers, h]
  add_overflow m n h v := by
    have hnone : wholeNumbers.function "+" invalidOid [some m, some n] = none := by
      simp only [wholeNumbers]
      rw [if_neg (by decide), if_neg (by decide), if_neg (by decide), if_neg h]
    rw [hnone]
    cases v <;> exact nofun
  add_null_left _ := rfl
  add_null_right v := by cases v <;> rfl

/-- `i.a = outerSide` below ORDER BY `i.b`. -/
def correlatedChild (outerSide : Expression) : LogicalOperator :=
  .order [columnRef ⟨2, 1⟩]
    (.filter [function "=" 96 [columnRef ⟨2, 0⟩, outerSide]] (.get ⟨2, 0, [], []⟩))

/-- LIMIT 1 OFFSET 1 with `i.a = o.x`. -/
theorem pushDownLimit_givesOwnLimit_iff_limit_offset :
    LimitsOneGroup wholeNumbers wholeNumbersBigints {2} (some (constant "1" false))
        (some (constant "1" false)) [columnRef ⟨2, 1⟩]
        [function "=" 96 [columnRef ⟨2, 0⟩, columnRef ⟨1, 0⟩]] ∧
      GivesOwnLimit wholeNumbers wholeNumbersBigints 3 {2} (some (constant "1" false))
        (some (constant "1" false)) [columnRef ⟨2, 1⟩] (.get ⟨2, 0, [], []⟩)
        [function "=" 96 [columnRef ⟨2, 0⟩, columnRef ⟨1, 0⟩]]
        (.filter [conjunction 0 [function ">" 0 [columnRef ⟨3, 0⟩, constant "1" false],
            function "<=" 0 [columnRef ⟨3, 0⟩,
              function "+" 0 [constant "1" false, constant "1" false]]]]
          (.window 3 ["row_number"] [columnRef ⟨2, 0⟩] [columnRef ⟨2, 1⟩] (.get ⟨2, 0, [], []⟩)))
        [function "=" 96 [columnRef ⟨2, 0⟩, columnRef ⟨1, 0⟩]] := by
  have hone : IsBigint wholeNumbers wholeNumbersBigints (constant "1" false) := by
    refine ⟨rfl, ?_⟩
    rintro v ⟨⟩
    exact ⟨1, by decide, rfl⟩
  have hequal : ∀ (opOid : Int) (a b : Option Int),
      wholeNumbers.truth (wholeNumbers.function "=" opOid [a, b]) = some true → a = b := by
    intro opOid a b h
    cases a with
    | none => exact absurd h nofun
    | some m =>
      cases b with
      | none => exact absurd h nofun
      | some n =>
        by_contra hne
        have hmn : m ≠ n := fun heq => hne (congrArg some heq)
        simp [wholeNumbers, hmn] at h
  have hcondition : LimitsOneGroup wholeNumbers wholeNumbersBigints {2}
      (some (constant "1" false)) (some (constant "1" false)) [columnRef ⟨2, 1⟩]
      [function "=" 96 [columnRef ⟨2, 0⟩, columnRef ⟨1, 0⟩]] := by
    refine ⟨by rintro n ⟨⟩; decide, by rintro n ⟨⟩; decide, Or.inr (Or.inr (Or.inr ⟨⟨?_, ?_, ?_⟩,
      fun outer => SeparatesSides.firstOfGroup ?_ hequal _⟩))⟩
    · exact fun _ => nofun
    · exact fun _ => nofun
    · rintro n ⟨⟩ m ⟨⟩
      exact ⟨by decide, by decide⟩
    · intro e he
      obtain rfl := List.mem_singleton.1 he
      decide
  have hpushed : pushDownScan {2} (takeOrder (correlatedChild (columnRef ⟨1, 0⟩))).2 =
      some (.get ⟨2, 0, [], []⟩, [function "=" 96 [columnRef ⟨2, 0⟩, columnRef ⟨1, 0⟩]]) := rfl
  have hplan : pushDownLimit (pushDownScan {2}) 3 {2} (some (constant "1" false))
      (some (constant "1" false)) (correlatedChild (columnRef ⟨1, 0⟩)) =
      some (.filter [conjunction 0 [function ">" 0 [columnRef ⟨3, 0⟩, constant "1" false],
            function "<=" 0 [columnRef ⟨3, 0⟩,
              function "+" 0 [constant "1" false, constant "1" false]]]]
          (.window 3 ["row_number"] [columnRef ⟨2, 0⟩] [columnRef ⟨2, 1⟩] (.get ⟨2, 0, [], []⟩)),
        [function "=" 96 [columnRef ⟨2, 0⟩, columnRef ⟨1, 0⟩]]) := rfl
  exact ⟨hcondition, (pushDownLimit_givesOwnLimit_iff (by decide) (by rintro e ⟨⟩; exact hone)
    (by rintro e ⟨⟩; exact hone) (by decide) hpushed hplan).2 hcondition⟩

/-- The columns `o.x`, `i.a` and `i.b`. -/
def columnsOf (x a b : Int) : Env Int := fun binding =>
  if binding.tableIndex = 1 then some x
  else if binding.columnIndex = 0 then some a
  else some b

/-- The filter of `LIMIT ALL` compares with NULL and keeps no row; with `i.a = o.x + i.b` and
LIMIT 1, the first row with the value of `i.a` takes the number of the row that is lifted. -/
theorem pushDownLimit_loses_rows :
    (∃ plan lifted, pushDownLimit (pushDownScan {2}) 3 {2} (some (constant "NULL" true)) none
        (correlatedChild (columnRef ⟨1, 0⟩)) = some (plan, lifted) ∧
      ¬GivesOwnLimit wholeNumbers wholeNumbersBigints 3 {2} (some (constant "NULL" true)) none
        [columnRef ⟨2, 1⟩] (.get ⟨2, 0, [], []⟩)
        [function "=" 96 [columnRef ⟨2, 0⟩, columnRef ⟨1, 0⟩]] plan lifted) ∧
    ∃ plan lifted, pushDownLimit (pushDownScan {2}) 3 {2} (some (constant "1" false)) none
        (correlatedChild (function "+" 0 [columnRef ⟨1, 0⟩, columnRef ⟨2, 1⟩])) =
          some (plan, lifted) ∧
      ¬GivesOwnLimit wholeNumbers wholeNumbersBigints 3 {2} (some (constant "1" false)) none
        [columnRef ⟨2, 1⟩] (.get ⟨2, 0, [], []⟩)
        [function "=" 96 [columnRef ⟨2, 0⟩, function "+" 0 [columnRef ⟨1, 0⟩, columnRef ⟨2, 1⟩]]]
        plan lifted := by
  constructor
  · refine ⟨_, _, rfl, fun hgives => ?_⟩
    have hnull : IsBigint wholeNumbers wholeNumbersBigints (constant "NULL" true) :=
      ⟨rfl, nofun⟩
    obtain ⟨-, -, hzero | hnothing | ⟨hnone, -⟩ | ⟨hknown, -⟩⟩ :=
      limitsOneGroup_of_gives (by decide) (by rintro e ⟨⟩; exact hnull) (by rintro e ⟨⟩) rfl hgives
    · exact absurd hzero nofun
    · refine hnothing (columnsOf 1 0 0) (columnsOf 0 1 0) fun e he => ?_
      obtain rfl := List.mem_singleton.1 he
      rfl
    · exact absurd hnone nofun
    · exact hknown.count_known nofun rfl
  · refine ⟨_, _, rfl, fun hgives => ?_⟩
    have hone : IsBigint wholeNumbers wholeNumbersBigints (constant "1" false) := by
      refine ⟨rfl, ?_⟩
      rintro v ⟨⟩
      exact ⟨1, by decide, rfl⟩
    have hlifted : Lifted wholeNumbers {2} [function "=" 96 [columnRef ⟨2, 0⟩,
        function "+" 0 [columnRef ⟨1, 0⟩, columnRef ⟨2, 1⟩]]] (columnsOf 0 0 0)
        (columnsOf 0 1 1) := by
      intro e he
      obtain rfl := List.mem_singleton.1 he
      rfl
    obtain ⟨-, -, hzero | hnothing | ⟨hnone, -⟩ | ⟨-, hgroup⟩⟩ :=
      limitsOneGroup_of_gives (by decide) (by rintro e ⟨⟩; exact hone) (by rintro e ⟨⟩) rfl hgives
    · exact absurd hzero (by decide)
    · exact hnothing _ _ hlifted
    · exact absurd hnone nofun
    · -- the row with `b = 0` has the same `a` and comes first
      have hfirst := (hgroup (columnsOf 0 0 0) (columnsOf 0 1 0) (columnsOf 0 1 1) hlifted).2
        rfl (by decide) _ (List.mem_singleton_self _)
      exact absurd hfirst (by decide)

end DecorrelatedLimit
end PgYaap
