import PgYaap.AggregateReferences

/-! # Canonicalization of a whole plan

What a run of `FinalizeAggregateCanonicalization` that succeeds does to every consumer, and
the exact condition under which canonicalization never confuses two aggregates. -/
namespace PgYaap
namespace AggregateCanonicalization

open LogicalPlan PhysicalPlan Expression

variable {sources : List PhysicalOperator}

/-! ## Aggregates that remain -/

mutual

theorem aggregatesIn_eq_nil (e : Expression)
    (h : expressionContainsBoundAggregate false e = false) : aggregatesIn e = [] := by
  cases e with
  | aggregate functionName aggOid isDistinct children =>
    simp [expressionContainsBoundAggregate] at h
  | function functionName opOid children => exact aggregatesInList_eq_nil children h
  | conjunction boolExprType children => exact aggregatesInList_eq_nil children h
  | subquery sublinkType sublinkName children => exact aggregatesInList_eq_nil children h
  | columnRef binding => rfl
  | constant value isNull => rfl
  | opaqueExpr => rfl

theorem aggregatesInList_eq_nil (es : List Expression)
    (h : childrenContainBoundAggregate es = false) : aggregatesInList es = [] := by
  cases es with
  | nil => rfl
  | cons e es =>
    obtain ⟨he, hes⟩ := Bool.or_eq_false_iff.1 h
    rw [aggregatesInList, aggregatesIn_eq_nil e he, aggregatesInList_eq_nil es hes,
      List.append_nil]

end

mutual

/-- An exact rewriting that leaves no aggregate has found a column for each of them. -/
theorem ReplacedExactly.produces
    (hroots : ∀ p ∈ visibleAggregates sources, expressionContainsBoundAggregate true p.2 = false)
    (e : Expression) {rewritten : Expression} (h : ReplacedExactly sources rewritten e)
    (hclean : expressionContainsBoundAggregate false rewritten = false) :
    ∀ agg ∈ aggregatesIn e, ∃ b, Produces sources b agg.toExpression := by
  cases e with
  | aggregate functionName aggOid isDistinct children =>
    rcases h with ⟨b, -, hb⟩ | ⟨clones, rfl, -⟩
    · intro agg hagg
      rcases List.mem_cons.1 hagg with rfl | hagg
      · exact ⟨b, hb⟩
      · -- the producer holds no nested aggregate
        have hnested := hroots _ hb
        rw [expressionContainsBoundAggregate, Bool.not_true, Bool.or_false] at hnested
        rw [aggregatesInList_eq_nil children hnested] at hagg
        exact absurd hagg List.not_mem_nil
    · simp [expressionContainsBoundAggregate] at hclean
  | function functionName opOid children =>
    obtain ⟨clones, rfl, hall⟩ := h
    exact AllReplacedExactly.produces hroots children hall hclean
  | conjunction boolExprType children =>
    obtain ⟨clones, rfl, hall⟩ := h
    exact AllReplacedExactly.produces hroots children hall hclean
  | subquery sublinkType sublinkName children =>
    obtain rfl : rewritten = subquery sublinkType sublinkName children := h
    rw [aggregatesIn_eq_nil _ hclean]
    exact fun agg hagg => absurd hagg List.not_mem_nil
  | columnRef binding => exact fun agg hagg => absurd hagg List.not_mem_nil
  | constant value isNull => exact fun agg hagg => absurd hagg List.not_mem_nil
  | opaqueExpr => exact fun agg hagg => absurd hagg List.not_mem_nil

theorem AllReplacedExactly.produces
    (hroots : ∀ p ∈ visibleAggregates sources, expressionContainsBoundAggregate true p.2 = false)
    (es : List Expression) {rewritten : List Expression}
    (h : AllReplacedExactly sources rewritten es)
    (hclean : childrenContainBoundAggregate rewritten = false) :
    ∀ agg ∈ aggregatesInList es, ∃ b, Produces sources b agg.toExpression := by
  cases es with
  | nil => exact fun agg hagg => absurd hagg List.not_mem_nil
  | cons e es =>
    obtain ⟨clone, clones, rfl, hone, hall⟩ := h
    obtain ⟨hclone, hclones⟩ := Bool.or_eq_false_iff.1 hclean
    intro agg hagg
    rcases List.mem_append.1 hagg with hagg | hagg
    · exact ReplacedExactly.produces hroots e hone hclone agg hagg
    · exact AllReplacedExactly.produces hroots es hall hclones agg hagg

end

/-! ## A run that succeeds -/

/-- A reference is resolved by the visible columns alone. -/
theorem rewriteAggregateExprToProducedColumn_congr {sources' : List PhysicalOperator}
    (h : visibleAggregates sources' = visibleAggregates sources) (agg : BoundAggregateExpression) :
    rewriteAggregateExprToProducedColumn agg sources' =
      rewriteAggregateExprToProducedColumn agg sources := by
  have hkeys : sameFingerprint sources' agg = sameFingerprint sources agg := by
    rw [sameFingerprint, sameFingerprint, h]
  have hnames : sameFunction sources' agg = sameFunction sources agg := by
    rw [sameFunction, sameFunction, h]
  apply Option.ext
  intro e
  rw [rewriteAggregateExprToProducedColumn_eq_some, rewriteAggregateExprToProducedColumn_eq_some,
    hkeys, hnames]

mutual

theorem rewriteAggregateRefs_congr {sources' : List PhysicalOperator}
    (h : visibleAggregates sources' = visibleAggregates sources) (e : Expression) :
    rewriteAggregateRefs sources' e = rewriteAggregateRefs sources e := by
  cases e with
  | aggregate functionName aggOid isDistinct children =>
    rw [rewriteAggregateRefs, rewriteAggregateRefs,
      rewriteAggregateExprToProducedColumn_congr h, rewriteAggregateRefsList_congr h children]
  | function functionName opOid children =>
    rw [rewriteAggregateRefs, rewriteAggregateRefs, rewriteAggregateRefsList_congr h children]
  | conjunction boolExprType children =>
    rw [rewriteAggregateRefs, rewriteAggregateRefs, rewriteAggregateRefsList_congr h children]
  | columnRef binding => rfl
  | constant value isNull => rfl
  | subquery sublinkType sublinkName children => rfl
  | opaqueExpr => rfl

theorem rewriteAggregateRefsList_congr {sources' : List PhysicalOperator}
    (h : visibleAggregates sources' = visibleAggregates sources) (es : List Expression) :
    rewriteAggregateRefsList sources' es = rewriteAggregateRefsList sources es := by
  cases es with
  | nil => rfl
  | cons e es =>
    rw [rewriteAggregateRefsList, rewriteAggregateRefsList, rewriteAggregateRefs_congr h e,
      rewriteAggregateRefsList_congr h es]

end

theorem canonicalizeAggregateRefs_congr {sources' : List PhysicalOperator}
    (h : visibleAggregates sources' = visibleAggregates sources) (es : List Expression) :
    canonicalizeAggregateRefs es sources' = es.map (canonicalizeAggregateRef sources) := by
  apply List.map_congr_left
  intro e _
  rw [canonicalizeAggregateRef_eq, canonicalizeAggregateRef_eq, rewriteAggregateRefs_congr h e]

theorem verify_then {α : Type} {es : List Expression} {context : String} {allowRoot : Bool}
    {next : Except String α} {result : α}
    (h : (do verifyNoBoundAggregateExpressions es context allowRoot; next) = .ok result) :
    (∀ e ∈ es, expressionContainsBoundAggregate allowRoot e = false) ∧ next = .ok result := by
  rw [verifyNoBoundAggregateExpressions] at h
  by_cases hany : es.any (expressionContainsBoundAggregate allowRoot) = true
  · rw [if_pos hany] at h
    cases h
  · rw [if_neg hany] at h
    refine ⟨fun e he => ?_, h⟩
    by_contra hcontains
    exact hany (List.any_eq_true.2 ⟨e, he, Bool.eq_true_of_not_eq_false hcontains⟩)

/-- What a successful run makes of a plan. -/
structure Finalized (op op' : PhysicalOperator) : Prop where
  outputs : op'.outputs = op.outputs
  columns : aggregateColumns op' = aggregateColumns op
  rewritten : (consumers op').map Prod.snd =
    (consumers op).map fun c => canonicalizeAggregateRef c.1 c.2
  clean : ∀ c ∈ consumers op,
    expressionContainsBoundAggregate false (canonicalizeAggregateRef c.1 c.2) = false
  roots : ∀ p ∈ aggregateColumns op, expressionContainsBoundAggregate true p.2 = false
  sources : ∀ c ∈ consumers op, ∀ p ∈ visibleAggregates c.1,
    expressionContainsBoundAggregate true p.2 = false

theorem Finalized.visible {sources' : List PhysicalOperator}
    (h : List.Forall₂ Finalized sources sources') :
    visibleAggregates sources' = visibleAggregates sources := by
  induction h with
  | nil => rfl
  | cons hop _ ih =>
    rw [visibleAggregates] at ih ⊢
    rw [visibleAggregates, List.flatMap_cons, List.flatMap_cons, hop.outputs, hop.columns, ih]
    rfl

/-- An operator above `sources` with the expressions `l`. -/
theorem Finalized.node {op op' : PhysicalOperator} {sources' : List PhysicalOperator}
    {l : List Expression} (h : List.Forall₂ Finalized sources sources')
    (hclean : ∀ e ∈ canonicalizeAggregateRefs l sources',
      expressionContainsBoundAggregate false e = false)
    (houtputs : op'.outputs = op.outputs)
    (hcolumns : aggregateColumns op = sources.flatMap aggregateColumns)
    (hcolumns' : aggregateColumns op' = sources'.flatMap aggregateColumns)
    (hconsumers : consumers op = sources.flatMap consumers ++ l.map (sources, ·))
    (hconsumers' : consumers op' = sources'.flatMap consumers ++
      (canonicalizeAggregateRefs l sources').map (sources', ·)) : Finalized op op' := by
  have hvisible := Finalized.visible h
  have hbelow : sources'.flatMap aggregateColumns = sources.flatMap aggregateColumns ∧
      (sources'.flatMap consumers).map Prod.snd =
        (sources.flatMap consumers).map (fun c => canonicalizeAggregateRef c.1 c.2) ∧
      (∀ c ∈ sources.flatMap consumers,
        expressionContainsBoundAggregate false (canonicalizeAggregateRef c.1 c.2) = false) ∧
      (∀ p ∈ sources.flatMap aggregateColumns,
        expressionContainsBoundAggregate true p.2 = false) ∧
      ∀ c ∈ sources.flatMap consumers, ∀ p ∈ visibleAggregates c.1,
        expressionContainsBoundAggregate true p.2 = false := by
    clear hclean hcolumns hcolumns' hconsumers hconsumers' hvisible
    induction h with
    | nil => simp
    | cons hop _ ih =>
      obtain ⟨hcols, hrewritten, hclean, hroots, hsources⟩ := ih
      simp only [List.flatMap_cons, List.map_append, hcols, hop.columns, hop.rewritten,
        hrewritten, List.mem_append]
      refine ⟨trivial, trivial, ?_, ?_, ?_⟩
      · exact fun c hc => hc.elim (hop.clean c) (hclean c)
      · exact fun p hp => hp.elim (hop.roots p) (hroots p)
      · exact fun c hc => hc.elim (hop.sources c) (hsources c)
  obtain ⟨hcols, hrewritten, hbelowClean, hroots, hsources⟩ := hbelow
  have hseen : ∀ p ∈ visibleAggregates sources,
      expressionContainsBoundAggregate true p.2 = false := by
    intro p hp
    obtain ⟨source, hsource, hp⟩ := List.mem_flatMap.1 hp
    exact hroots p (List.mem_flatMap.2 ⟨source, hsource, (List.mem_filter.1 hp).1⟩)
  rw [canonicalizeAggregateRefs_congr hvisible] at hclean hconsumers'
  refine ⟨houtputs, by rw [hcolumns', hcols, hcolumns], ?_, ?_, hcolumns ▸ hroots, ?_⟩
  · rw [hconsumers', hconsumers, List.map_append, hrewritten]
    simp
  · rw [hconsumers]
    intro c hc
    rcases List.mem_append.1 hc with hc | hc
    · exact hbelowClean c hc
    · obtain ⟨e, he, rfl⟩ := List.mem_map.1 hc
      exact hclean _ (List.mem_map_of_mem he)
  · rw [hconsumers]
    intro c hc
    rcases List.mem_append.1 hc with hc | hc
    · exact hsources c hc
    · obtain ⟨e, -, rfl⟩ := List.mem_map.1 hc
      exact hseen

theorem finalize_bind {op : PhysicalOperator}
    {next : PhysicalOperator → Except String PhysicalOperator} {result : PhysicalOperator}
    (h : (do next (← finalizeAggregateCanonicalization op)) = .ok result) :
    ∃ op', finalizeAggregateCanonicalization op = .ok op' ∧ next op' = .ok result := by
  cases hop : finalizeAggregateCanonicalization op with
  | error message =>
    rw [hop] at h
    cases h
  | ok op' =>
    rw [hop] at h
    exact ⟨op', rfl, h⟩

/-- **A successful run**, operator by operator. -/
theorem finalized {op op' : PhysicalOperator}
    (h : finalizeAggregateCanonicalization op = .ok op') : Finalized op op' := by
  induction op generalizing op' with
  | tableScan tableIndex relid projectedColumns filters =>
    obtain ⟨-, h⟩ := verify_then h
    cases h
    exact .node (l := []) .nil (by simp [canonicalizeAggregateRefs]) rfl rfl rfl rfl rfl
  | projection tableIndex selectList child ih =>
    obtain ⟨child', hchild, h⟩ := finalize_bind h
    obtain ⟨hclean, h⟩ := verify_then h
    cases h
    exact .node (.cons (ih hchild) .nil) hclean
      (by simp [PhysicalOperator.outputs, canonicalizeAggregateRefs])
      (by simp [aggregateColumns]) (by simp [aggregateColumns])
      (by simp [consumers]) (by simp [consumers])
  | filter expressions child ih =>
    obtain ⟨child', hchild, h⟩ := finalize_bind h
    obtain ⟨hclean, h⟩ := verify_then h
    cases h
    exact .node (.cons (ih hchild) .nil) hclean (ih hchild).outputs
      (by simp [aggregateColumns]) (by simp [aggregateColumns])
      (by simp [consumers]) (by simp [consumers])
  | distinct expressions child ih =>
    obtain ⟨child', hchild, h⟩ := finalize_bind h
    obtain ⟨hclean, h⟩ := verify_then h
    cases h
    exact .node (.cons (ih hchild) .nil) hclean (ih hchild).outputs
      (by simp [aggregateColumns]) (by simp [aggregateColumns])
      (by simp [consumers]) (by simp [consumers])
  | setOperation tableIndex all outputNames left right ihl ihr =>
    obtain ⟨left', hleft, h⟩ := finalize_bind h
    obtain ⟨right', hright, h⟩ := finalize_bind h
    cases h
    exact .node (l := []) (.cons (ihl hleft) (.cons (ihr hright) .nil))
      (by simp [canonicalizeAggregateRefs]) rfl
      (by simp [aggregateColumns]) (by simp [aggregateColumns])
      (by simp [consumers]) (by simp [consumers, canonicalizeAggregateRefs])
  | limit limitCount limitOffset child ih =>
    obtain ⟨child', hchild, h⟩ := finalize_bind h
    obtain ⟨-, h⟩ := verify_then h
    cases h
    exact .node (l := []) (.cons (ih hchild) .nil) (by simp [canonicalizeAggregateRefs])
      (ih hchild).outputs (by simp [aggregateColumns]) (by simp [aggregateColumns])
      (by simp [consumers]) (by simp [consumers, canonicalizeAggregateRefs])
  | window tableIndex functionNames partitions orders child ih =>
    obtain ⟨child', hchild, h⟩ := finalize_bind h
    obtain ⟨hpartitions, h⟩ := verify_then h
    obtain ⟨horders, h⟩ := verify_then h
    cases h
    have hclean : ∀ e ∈ canonicalizeAggregateRefs (partitions ++ orders) [child'],
        expressionContainsBoundAggregate false e = false := by
      intro e he
      rw [canonicalizeAggregateRefs, List.map_append] at he
      exact (List.mem_append.1 he).elim (hpartitions e) (horders e)
    exact .node (.cons (ih hchild) .nil) hclean
      (by rw [PhysicalOperator.outputs, PhysicalOperator.outputs, (ih hchild).outputs])
      (by simp [aggregateColumns]) (by simp [aggregateColumns])
      (by simp [consumers]) (by simp [consumers, canonicalizeAggregateRefs])
  | hashJoin join left right ihl ihr =>
    obtain ⟨left', hleft, h⟩ := finalize_bind h
    obtain ⟨right', hright, h⟩ := finalize_bind h
    obtain ⟨hclean, h⟩ := verify_then h
    cases h
    exact .node (.cons (ihl hleft) (.cons (ihr hright) .nil)) hclean
      (by simp only [PhysicalOperator.outputs, (ihl hleft).outputs, (ihr hright).outputs])
      (by simp [aggregateColumns]) (by simp [aggregateColumns])
      (by simp [consumers]) (by simp [consumers])
  | delimScan tableIndex correlatedColumns =>
    cases h
    exact .node (l := []) .nil (by simp [canonicalizeAggregateRefs]) rfl rfl rfl rfl rfl
  | crossProduct left right ihl ihr =>
    obtain ⟨left', hleft, h⟩ := finalize_bind h
    obtain ⟨right', hright, h⟩ := finalize_bind h
    cases h
    exact .node (l := []) (.cons (ihl hleft) (.cons (ihr hright) .nil))
      (by simp [canonicalizeAggregateRefs])
      (by rw [PhysicalOperator.outputs, PhysicalOperator.outputs, (ihl hleft).outputs,
        (ihr hright).outputs])
      (by simp [aggregateColumns]) (by simp [aggregateColumns])
      (by simp [consumers]) (by simp [consumers, canonicalizeAggregateRefs])
  | hashGroupBy groupIndex aggregateIndex groups expressions child ih =>
    obtain ⟨child', hchild, h⟩ := finalize_bind h
    obtain ⟨-, h⟩ := verify_then h
    obtain ⟨hroots, h⟩ := verify_then h
    cases h
    refine ⟨rfl, rfl, (ih hchild).rewritten, (ih hchild).clean, ?_, (ih hchild).sources⟩
    intro p hp
    obtain ⟨⟨produced, idx⟩, hmem, rfl⟩ := List.mem_map.1 hp
    exact hroots produced (List.mem_zipIdx' hmem |>.2 ▸ List.getElem_mem _)
  | orderBy orders child ih =>
    obtain ⟨child', hchild, h⟩ := finalize_bind h
    obtain ⟨hclean, h⟩ := verify_then h
    cases h
    exact .node (.cons (ih hchild) .nil) hclean (ih hchild).outputs
      (by simp [aggregateColumns]) (by simp [aggregateColumns])
      (by simp [consumers]) (by simp [consumers])

/-! ## When canonicalization is exact -/

/-- **Canonicalization of a plan is exact** if and only if every aggregate reference in it
names its producer. -/
theorem finalizeAggregateCanonicalization_exact_iff (plan : PhysicalOperator) :
    CanonicalizesExactly plan ↔ ∀ consumer ∈ consumers plan,
      NamesProducers consumer.1 consumer.2 := by
  constructor
  · intro h consumer hconsumer
    have hreplaced := h.replaced consumer hconsumer
    rw [canonicalizeAggregateRef_eq] at hreplaced
    exact (replacedExactly_iff consumer.2).1 hreplaced
  · intro h
    have hreplaced : ∀ consumer ∈ consumers plan, ReplacedExactly consumer.1
        (canonicalizeAggregateRef consumer.1 consumer.2) consumer.2 := by
      intro consumer hconsumer
      rw [canonicalizeAggregateRef_eq]
      exact (replacedExactly_iff consumer.2).2 (h consumer hconsumer)
    refine ⟨hreplaced, fun consumer hconsumer agg hagg hnone => ?_⟩
    cases hplan : finalizeAggregateCanonicalization plan with
    | error message => exact ⟨message, rfl⟩
    | ok plan' =>
      have hrun := finalized hplan
      obtain ⟨b, hb⟩ := (hreplaced consumer hconsumer).produces (hrun.sources consumer hconsumer)
        consumer.2 (hrun.clean consumer hconsumer) agg hagg
      exact absurd hb (hnone b)

/-- `sum(a)` by `k`, and a window ordered by `sum(b)` above it. -/
def rankBySum : PhysicalOperator :=
  .projection 4 [columnRef ⟨1, 0⟩, columnRef ⟨2, 0⟩, columnRef ⟨3, 0⟩]
    (.window 3 ["rank"] [] [aggregate "sum" 2108 false [columnRef ⟨0, 2⟩]]
      (.hashGroupBy 1 2 [columnRef ⟨0, 0⟩] [aggregate "sum" 2108 false [columnRef ⟨0, 1⟩]]
        (.tableScan 0 16384 [0, 1, 2] [])))

/-- The window of `rankBySum` is ordered by `sum(a)`. -/
theorem not_finalizeAggregateCanonicalization_exact : ¬ ∀ plan, CanonicalizesExactly plan := by
  intro h
  have hkey : rewriteAggregateExprToProducedColumn ⟨"sum", 2108, false, [columnRef ⟨0, 2⟩]⟩
      [.hashGroupBy 1 2 [columnRef ⟨0, 0⟩] [aggregate "sum" 2108 false [columnRef ⟨0, 1⟩]]
        (.tableScan 0 16384 [0, 1, 2] [])] = some (columnRef ⟨2, 0⟩) := by rfl
  have hreplaced := (h rankBySum).replaced
    ([.hashGroupBy 1 2 [columnRef ⟨0, 0⟩] [aggregate "sum" 2108 false [columnRef ⟨0, 1⟩]]
      (.tableScan 0 16384 [0, 1, 2] [])], aggregate "sum" 2108 false [columnRef ⟨0, 2⟩])
    (by simp [rankBySum, consumers])
  rw [canonicalizeAggregateRef_eq, rewriteAggregateRefs, hkey] at hreplaced
  rcases hreplaced with ⟨b, -, hb⟩ | ⟨clones, hclones, -⟩
  · simp [Produces, visibleAggregates, aggregateColumns] at hb
  · cases hclones

end AggregateCanonicalization
end PgYaap
