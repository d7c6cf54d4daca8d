import PgYaap.AggregateCanonicalization

/-! # What an aggregate reference is replaced by

The columns that compute an aggregate, read off the plan below a reference, and the exact
condition under which every reference that canonicalization replaces gets such a column. -/
namespace PgYaap
namespace AggregateCanonicalization

open LogicalPlan PhysicalPlan Expression

variable {sources : List PhysicalOperator}

/-! ## The columns that compute an aggregate -/

/-- The columns of the aggregations met first on the way down, each with its expression. -/
def aggregateColumns : PhysicalOperator → List (ColumnBinding × Expression)
  | .hashGroupBy _ aggregateIndex _ expressions _ =>
    expressions.zipIdx.map fun (produced, idx) => (⟨aggregateIndex, idx⟩, produced)
  | .filter _ child => aggregateColumns child
  | .projection _ _ child => aggregateColumns child
  | .orderBy _ child => aggregateColumns child
  | .limit _ _ child => aggregateColumns child
  | .distinct _ child => aggregateColumns child
  | .window _ _ _ _ child => aggregateColumns child
  | .setOperation _ _ _ left right => aggregateColumns left ++ aggregateColumns right
  | .hashJoin _ left right => aggregateColumns left ++ aggregateColumns right
  | .crossProduct left right => aggregateColumns left ++ aggregateColumns right
  | .tableScan _ _ _ _ => []
  | .delimScan _ _ => []

/-- Those the operator itself puts out. -/
def visibleAggregates (sources : List PhysicalOperator) : List (ColumnBinding × Expression) :=
  sources.flatMap fun source => (aggregateColumns source).filter fun p => p.1 ∈ source.outputs

/-- The column `binding` of the sources computes `e`. -/
def Produces (sources : List PhysicalOperator) (binding : ColumnBinding) (e : Expression) : Prop :=
  (binding, e) ∈ visibleAggregates sources

/-- The produced columns that have the fingerprint of `agg`. -/
def sameFingerprint (sources : List PhysicalOperator) (agg : BoundAggregateExpression) :
    List (ColumnBinding × Expression) :=
  (visibleAggregates sources).filter fun p =>
    expressionSemanticKey p.2 = expressionSemanticKey agg.toExpression

/-- The produced columns that are an aggregate of the same function as `agg`. -/
def sameFunction (sources : List PhysicalOperator) (agg : BoundAggregateExpression) :
    List (ColumnBinding × Expression) :=
  (visibleAggregates sources).filter fun p => isAggregateOf agg.functionName p.2

theorem filterMap_zipIdx {α β γ : Type} (es : List α) (i : Nat) (column : Nat → β)
    (p : α → Prop) (v : β → Prop) (g : α → β → γ) [DecidablePred p] [DecidablePred v] :
    ((es.zipIdx i).filterMap fun x =>
      if p x.1 ∧ v (column x.2) then some (g x.1 (column x.2)) else none) =
      ((((es.zipIdx i).map fun x => (column x.2, x.1)).filter fun x => v x.1).filter
        fun x => p x.2).map fun x => g x.2 x.1 := by
  induction es generalizing i with
  | nil => rfl
  | cons e es ih =>
    rw [List.zipIdx_cons, List.filterMap_cons, ih, List.map_cons, List.filter_cons]
    by_cases hv : v (column i)
    · by_cases hp : p e
      · simp [hp, hv]
      · simp [hp, hv]
    · simp [hv]

theorem collectAggregateProducedColumns_eq (agg : BoundAggregateExpression)
    (visibleOutputs : List ColumnBinding) (op : PhysicalOperator) :
    collectAggregateProducedColumns agg visibleOutputs op =
      (((aggregateColumns op).filter fun p => p.1 ∈ visibleOutputs).filter fun p =>
        expressionSemanticKey p.2 = expressionSemanticKey agg.toExpression).map Prod.fst := by
  induction op with
  | hashGroupBy groupIndex aggregateIndex groups expressions child ih =>
    exact filterMap_zipIdx expressions 0 (ColumnBinding.mk aggregateIndex)
      (fun e => expressionSemanticKey e = expressionSemanticKey agg.toExpression)
      (· ∈ visibleOutputs) (fun _ b => b)
  | filter expressions child ih => exact ih
  | projection tableIndex selectList child ih => exact ih
  | orderBy orders child ih => exact ih
  | limit limitCount limitOffset child ih => exact ih
  | distinct expressions child ih => exact ih
  | window tableIndex functionNames partitions orders child ih => exact ih
  | setOperation tableIndex all outputNames left right ihl ihr =>
    simp [collectAggregateProducedColumns, aggregateColumns, ihl, ihr]
  | hashJoin join left right ihl ihr =>
    simp [collectAggregateProducedColumns, aggregateColumns, ihl, ihr]
  | crossProduct left right ihl ihr =>
    simp [collectAggregateProducedColumns, aggregateColumns, ihl, ihr]
  | tableScan tableIndex relid projectedColumns filters => rfl
  | delimScan tableIndex correlatedColumns => rfl

theorem collectAggregateProducedColumnsByFunction_eq (agg : BoundAggregateExpression)
    (visibleOutputs : List ColumnBinding) (op : PhysicalOperator) :
    collectAggregateProducedColumnsByFunction agg visibleOutputs op =
      (((aggregateColumns op).filter fun p => p.1 ∈ visibleOutputs).filter fun p =>
        isAggregateOf agg.functionName p.2).map fun p => ⟨expressionSemanticKey p.2, p.1⟩ := by
  induction op with
  | hashGroupBy groupIndex aggregateIndex groups expressions child ih =>
    have h := filterMap_zipIdx expressions 0 (ColumnBinding.mk aggregateIndex)
      (fun e => isAggregateOf agg.functionName e) (· ∈ visibleOutputs)
      (fun e b => AggregateRewriteCandidate.mk (expressionSemanticKey e) b)
    simp only [Bool.decide_eq_true] at h
    exact h
  | filter expressions child ih => exact ih
  | projection tableIndex selectList child ih => exact ih
  | orderBy orders child ih => exact ih
  | limit limitCount limitOffset child ih => exact ih
  | distinct expressions child ih => exact ih
  | window tableIndex functionNames partitions orders child ih => exact ih
  | setOperation tableIndex all outputNames left right ihl ihr =>
    simp [collectAggregateProducedColumnsByFunction, aggregateColumns, ihl, ihr]
  | hashJoin join left right ihl ihr =>
    simp [collectAggregateProducedColumnsByFunction, aggregateColumns, ihl, ihr]
  | crossProduct left right ihl ihr =>
    simp [collectAggregateProducedColumnsByFunction, aggregateColumns, ihl, ihr]
  | tableScan tableIndex relid projectedColumns filters => rfl
  | delimScan tableIndex correlatedColumns => rfl

/-- A list of candidates that agree on one fingerprint. -/
def Agreeing (candidates : List (ColumnBinding × Expression)) : Prop :=
  ∀ p ∈ candidates, ∀ q ∈ candidates, expressionSemanticKey p.2 = expressionSemanticKey q.2

/-- **What a reference is resolved to**: the only column with its fingerprint or, without
any, the first column of the same function when all of these agree. -/
theorem rewriteAggregateExprToProducedColumn_eq_some {agg : BoundAggregateExpression}
    {e : Expression} :
    rewriteAggregateExprToProducedColumn agg sources = some e ↔
      (∃ p, sameFingerprint sources agg = [p] ∧ e = columnRef p.1) ∨
      (sameFingerprint sources agg = [] ∧ Agreeing (sameFunction sources agg) ∧
        ∃ p, (sameFunction sources agg).head? = some p ∧ e = columnRef p.1) := by
  have hkeys : (sources.flatMap fun source =>
      collectAggregateProducedColumns agg source.outputs source) =
      (sameFingerprint sources agg).map Prod.fst := by
    simp only [sameFingerprint, visibleAggregates, collectAggregateProducedColumns_eq,
      List.filter_flatMap, List.map_flatMap]
  have hnames : (sources.flatMap fun source =>
      collectAggregateProducedColumnsByFunction agg source.outputs source) =
      (sameFunction sources agg).map fun p => ⟨expressionSemanticKey p.2, p.1⟩ := by
    simp only [sameFunction, visibleAggregates, collectAggregateProducedColumnsByFunction_eq,
      List.filter_flatMap, List.map_flatMap]
  rw [rewriteAggregateExprToProducedColumn, hkeys, hnames]
  cases sameFingerprint sources agg with
  | cons p ps =>
    cases ps with
    | nil => simp [eq_comm]
    | cons q qs => simp
  | nil =>
    cases sameFunction sources agg with
    | nil => simp
    | cons p ps =>
      have hcheck : (ps.map fun p => AggregateRewriteCandidate.mk (expressionSemanticKey p.2)
          p.1).all (fun c => c.semanticKey = expressionSemanticKey p.2) = true ↔
          Agreeing (p :: ps) := by
        rw [List.all_map, List.all_eq_true]
        constructor
        · intro hall a ha b hb
          have hkey : ∀ c ∈ p :: ps, expressionSemanticKey c.2 = expressionSemanticKey p.2 := by
            intro c hc
            rcases List.mem_cons.1 hc with rfl | hc
            · rfl
            · exact of_decide_eq_true (hall c hc)
          rw [hkey a ha, hkey b hb]
        · intro hagree q hq
          exact decide_eq_true (hagree q (List.mem_cons_of_mem p hq) p List.mem_cons_self)
      by_cases hagree : Agreeing (p :: ps)
      · simp only [List.map_cons, List.map_nil, hcheck.2 hagree, if_true]
        simp [hagree, eq_comm]
      · simp only [List.map_cons, List.map_nil]
        rw [if_neg fun h => hagree (hcheck.1 h)]
        simp [hagree]

theorem produces_of_sameFingerprint {agg : BoundAggregateExpression}
    {p : ColumnBinding × Expression} (hp : sameFingerprint sources agg = [p]) :
    Produces sources p.1 agg.toExpression ↔ p.2 = agg.toExpression := by
  have hmem : p ∈ sameFingerprint sources agg := hp ▸ List.mem_singleton_self p
  constructor
  · intro hproduces
    have hin : (p.1, agg.toExpression) ∈ sameFingerprint sources agg :=
      List.mem_filter.2 ⟨hproduces, decide_eq_true rfl⟩
    rw [hp, List.mem_singleton] at hin
    exact (congrArg Prod.snd hin).symm
  · intro heq
    rw [Produces, ← heq]
    exact (List.mem_filter.1 hmem).1

theorem not_produces_of_sameFingerprint {agg : BoundAggregateExpression} {b : ColumnBinding}
    (hnone : sameFingerprint sources agg = []) : ¬ Produces sources b agg.toExpression := by
  intro hproduces
  have hin : (b, agg.toExpression) ∈ sameFingerprint sources agg :=
    List.mem_filter.2 ⟨hproduces, decide_eq_true rfl⟩
  rw [hnone] at hin
  exact absurd hin List.not_mem_nil

/-! ## What canonicalization may do to an expression -/

mutual

/-- `rewritten` is the expression with some of its aggregates replaced, each by a column
that computes exactly this aggregate. -/
def ReplacedExactly (sources : List PhysicalOperator) (rewritten : Expression) :
    Expression → Prop
  | aggregate functionName aggOid isDistinct children =>
    (∃ b, rewritten = columnRef b ∧
      Produces sources b (aggregate functionName aggOid isDistinct children)) ∨
    ∃ clones, rewritten = aggregate functionName aggOid isDistinct clones ∧
      AllReplacedExactly sources clones children
  | function functionName opOid children =>
    ∃ clones, rewritten = function functionName opOid clones ∧
      AllReplacedExactly sources clones children
  | conjunction boolExprType children =>
    ∃ clones, rewritten = conjunction boolExprType clones ∧
      AllReplacedExactly sources clones children
  | e => rewritten = e

/-- The same for every argument. -/
def AllReplacedExactly (sources : List PhysicalOperator) (rewritten : List Expression) :
    List Expression → Prop
  | [] => rewritten = []
  | e :: es => ∃ clone clones, rewritten = clone :: clones ∧
      ReplacedExactly sources clone e ∧ AllReplacedExactly sources clones es

end

mutual

/-- Every aggregate reference names its producer: the only column with its fingerprint is
the aggregate itself; where no column has its fingerprint, the columns of the same function
do not agree on another one; and where it is not resolved, its arguments name theirs. -/
def NamesProducers (sources : List PhysicalOperator) : Expression → Prop
  | aggregate functionName aggOid isDistinct children =>
    let agg := BoundAggregateExpression.mk functionName aggOid isDistinct children
    (∀ p, sameFingerprint sources agg = [p] → p.2 = agg.toExpression) ∧
    (sameFingerprint sources agg = [] → sameFunction sources agg = [] ∨
      ¬ Agreeing (sameFunction sources agg)) ∧
    ((sameFingerprint sources agg).length ≠ 1 → AllNameProducers sources children)
  | function _ _ children => AllNameProducers sources children
  | conjunction _ children => AllNameProducers sources children
  | _ => True

/-- The same for every argument. -/
def AllNameProducers (sources : List PhysicalOperator) : List Expression → Prop
  | [] => True
  | e :: es => NamesProducers sources e ∧ AllNameProducers sources es

end

mutual

theorem rewriteAggregateRefs_unchanged (e : Expression)
    (h : (rewriteAggregateRefs sources e).2 = false) : (rewriteAggregateRefs sources e).1 = e := by
  cases e with
  | aggregate functionName aggOid isDistinct children =>
    rw [rewriteAggregateRefs] at h ⊢
    split at h
    · cases h
    · by_cases hchanged : (rewriteAggregateRefsList sources children).2
      · simp [hchanged] at h
      · simp [hchanged]
  | function functionName opOid children =>
    rw [rewriteAggregateRefs] at h ⊢
    by_cases hchanged : (rewriteAggregateRefsList sources children).2
    · simp [hchanged] at h
    · simp [hchanged]
  | conjunction boolExprType children =>
    rw [rewriteAggregateRefs] at h ⊢
    by_cases hchanged : (rewriteAggregateRefsList sources children).2
    · simp [hchanged] at h
    · simp [hchanged]
  | columnRef binding => rfl
  | constant value isNull => rfl
  | subquery sublinkType sublinkName children => rfl
  | opaqueExpr => rfl

theorem rewriteAggregateRefsList_unchanged (es : List Expression)
    (h : (rewriteAggregateRefsList sources es).2 = false) :
    (rewriteAggregateRefsList sources es).1 = es := by
  cases es with
  | nil => rfl
  | cons e es =>
    rw [rewriteAggregateRefsList] at h ⊢
    obtain ⟨he, hes⟩ := Bool.or_eq_false_iff.1 h
    simp only [rewriteAggregateRefs_unchanged e he, rewriteAggregateRefsList_unchanged es hes]

end

theorem canonicalizeAggregateRef_eq (e : Expression) :
    canonicalizeAggregateRef sources e = (rewriteAggregateRefs sources e).1 := by
  rw [canonicalizeAggregateRef]
  cases hchanged : (rewriteAggregateRefs sources e).2 with
  | false => simp [hchanged, rewriteAggregateRefs_unchanged e hchanged]
  | true => simp [hchanged]

/-- An aggregate without a column keeps its place; its arguments are rewritten. -/
theorem rewriteAggregateRefs_aggregate {functionName : String} {aggOid : Int} {isDistinct : Bool}
    {children : List Expression}
    (h : rewriteAggregateExprToProducedColumn ⟨functionName, aggOid, isDistinct, children⟩
      sources = none) :
    (rewriteAggregateRefs sources (aggregate functionName aggOid isDistinct children)).1 =
      aggregate functionName aggOid isDistinct (rewriteAggregateRefsList sources children).1 := by
  rw [rewriteAggregateRefs, h]
  cases hchanged : (rewriteAggregateRefsList sources children).2 with
  | false => simp [hchanged, rewriteAggregateRefsList_unchanged children hchanged]
  | true => simp [hchanged]

theorem rewriteAggregateRefs_function (functionName : String) (opOid : Int)
    (children : List Expression) :
    (rewriteAggregateRefs sources (function functionName opOid children)).1 =
      function functionName opOid (rewriteAggregateRefsList sources children).1 := by
  rw [rewriteAggregateRefs]
  cases hchanged : (rewriteAggregateRefsList sources children).2 with
  | false => simp [hchanged, rewriteAggregateRefsList_unchanged children hchanged]
  | true => simp [hchanged]

theorem rewriteAggregateRefs_conjunction (boolExprType : Int) (children : List Expression) :
    (rewriteAggregateRefs sources (conjunction boolExprType children)).1 =
      conjunction boolExprType (rewriteAggregateRefsList sources children).1 := by
  rw [rewriteAggregateRefs]
  cases hchanged : (rewriteAggregateRefsList sources children).2 with
  | false => simp [hchanged, rewriteAggregateRefsList_unchanged children hchanged]
  | true => simp [hchanged]

mutual

/-- **When the rewriting of one expression is exact.** -/
theorem replacedExactly_iff (e : Expression) :
    ReplacedExactly sources (rewriteAggregateRefs sources e).1 e ↔ NamesProducers sources e := by
  cases e with
  | aggregate functionName aggOid isDistinct children =>
    have hchildren := allReplacedExactly_iff children
    cases hcase : rewriteAggregateExprToProducedColumn
        ⟨functionName, aggOid, isDistinct, children⟩ sources with
    | some rewritten =>
      rw [rewriteAggregateRefs, hcase, ReplacedExactly, NamesProducers]
      rcases rewriteAggregateExprToProducedColumn_eq_some.1 hcase with
        ⟨p, hp, rfl⟩ | ⟨hnone, hagree, p, hp, rfl⟩
      · have hexact := produces_of_sameFingerprint hp
        simp only [hp, List.cons.injEq, and_true, forall_eq', reduceCtorEq, false_implies,
          List.length_singleton, ne_eq, not_true, columnRef.injEq, exists_eq_left', or_false,
          false_and, exists_false]
        exact hexact
      · have hnot := not_produces_of_sameFingerprint (b := p.1) hnone
        have hsome : sameFunction sources ⟨functionName, aggOid, isDistinct, children⟩ ≠ [] := by
          intro hempty
          rw [hempty] at hp
          cases hp
        simp only [hnone, columnRef.injEq, exists_eq_left', reduceCtorEq, false_and,
          exists_false, or_false, hsome, hagree, not_true, forall_const, and_false]
        exact iff_of_false hnot id
    | none =>
      rw [rewriteAggregateRefs_aggregate hcase, ReplacedExactly, NamesProducers, ← hchildren]
      have hnever := fun e => (rewriteAggregateExprToProducedColumn_eq_some (e := e)).not.1
        (by rw [hcase]; exact Option.some_ne_none e |>.symm)
      have hkeys : ∀ p, sameFingerprint sources
          ⟨functionName, aggOid, isDistinct, children⟩ ≠ [p] :=
        fun p hp => hnever (columnRef p.1) (Or.inl ⟨p, hp, rfl⟩)
      have hlength : (sameFingerprint sources
          ⟨functionName, aggOid, isDistinct, children⟩).length ≠ 1 := by
        intro hone
        obtain ⟨p, hp⟩ := List.length_eq_one_iff.1 hone
        exact hkeys p hp
      have hnames : sameFingerprint sources ⟨functionName, aggOid, isDistinct, children⟩ = [] →
          sameFunction sources ⟨functionName, aggOid, isDistinct, children⟩ = [] ∨
            ¬ Agreeing (sameFunction sources ⟨functionName, aggOid, isDistinct, children⟩) := by
        intro hnone
        by_contra hsome
        obtain ⟨hne, hagree⟩ := not_or.1 hsome
        obtain ⟨p, ps, hp⟩ := List.exists_cons_of_ne_nil hne
        exact hnever (columnRef p.1)
          (Or.inr ⟨hnone, not_not.1 hagree, p, by rw [hp, List.head?_cons], rfl⟩)
      constructor
      · rintro (⟨b, hb, -⟩ | ⟨clones, hclones, hall⟩)
        · cases hb
        · cases hclones
          exact ⟨fun p hp => absurd hp (hkeys p), hnames, fun _ => hall⟩
      · intro h
        exact Or.inr ⟨_, rfl, h.2.2 hlength⟩
  | function functionName opOid children =>
    rw [rewriteAggregateRefs_function, ReplacedExactly, NamesProducers,
      ← allReplacedExactly_iff children]
    simp
  | conjunction boolExprType children =>
    rw [rewriteAggregateRefs_conjunction, ReplacedExactly, NamesProducers,
      ← allReplacedExactly_iff children]
    simp
  | columnRef binding => simp [rewriteAggregateRefs, ReplacedExactly, NamesProducers]
  | constant value isNull => simp [rewriteAggregateRefs, ReplacedExactly, NamesProducers]
  | subquery sublinkType sublinkName children =>
    simp [rewriteAggregateRefs, ReplacedExactly, NamesProducers]
  | opaqueExpr => simp [rewriteAggregateRefs, ReplacedExactly, NamesProducers]

theorem allReplacedExactly_iff (es : List Expression) :
    AllReplacedExactly sources (rewriteAggregateRefsList sources es).1 es ↔
      AllNameProducers sources es := by
  cases es with
  | nil => simp [rewriteAggregateRefsList, AllReplacedExactly, AllNameProducers]
  | cons e es =>
    rw [AllNameProducers, ← replacedExactly_iff e, ← allReplacedExactly_iff es,
      rewriteAggregateRefsList, AllReplacedExactly]
    simp

end

/-! ## Whole plans -/

/-- Every expression canonicalization treats, with the operators it looks below. -/
def consumers : PhysicalOperator → List (List PhysicalOperator × Expression)
  | .tableScan _ _ _ _ => []
  | .projection _ selectList child => consumers child ++ selectList.map ([child], ·)
  | .filter expressions child => consumers child ++ expressions.map ([child], ·)
  | .distinct expressions child => consumers child ++ expressions.map ([child], ·)
  | .setOperation _ _ _ left right => consumers left ++ consumers right
  | .limit _ _ child => consumers child
  | .window _ _ partitions orders child =>
    consumers child ++ (partitions.map ([child], ·) ++ orders.map ([child], ·))
  | .hashJoin join left right =>
    (consumers left ++ consumers right) ++ join.conditions.map ([left, right], ·)
  | .delimScan _ _ => []
  | .crossProduct left right => consumers left ++ consumers right
  | .hashGroupBy _ _ _ _ child => consumers child
  | .orderBy orders child => consumers child ++ orders.map ([child], ·)

mutual

/-- The aggregates in an expression, at any depth. -/
def aggregatesIn : Expression → List BoundAggregateExpression
  | aggregate functionName aggOid isDistinct children =>
    ⟨functionName, aggOid, isDistinct, children⟩ :: aggregatesInList children
  | function _ _ children => aggregatesInList children
  | conjunction _ children => aggregatesInList children
  | subquery _ _ children => aggregatesInList children
  | columnRef _ => []
  | constant _ _ => []
  | opaqueExpr => []

/-- Those of the arguments. -/
def aggregatesInList : List Expression → List BoundAggregateExpression
  | [] => []
  | e :: es => aggregatesIn e ++ aggregatesInList es

end

/-- Canonicalization of a plan is exact: whatever it replaces is replaced by a column that
computes it, and an aggregate that no source produces makes it fail. -/
structure CanonicalizesExactly (plan : PhysicalOperator) : Prop where
  replaced : ∀ consumer ∈ consumers plan,
    ReplacedExactly consumer.1 (canonicalizeAggregateRef consumer.1 consumer.2) consumer.2
  reported : ∀ consumer ∈ consumers plan, ∀ agg ∈ aggregatesIn consumer.2,
    (∀ b, ¬ Produces consumer.1 b agg.toExpression) →
      ∃ message, finalizeAggregateCanonicalization plan = .error message

end AggregateCanonicalization
end PgYaap
