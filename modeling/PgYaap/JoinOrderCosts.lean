import PgYaap.JoinEnumerationBinary

/-! # The costs of the exact join order search

`JoinOrderCostModel` (`join_order_cost_model.cpp`) and `GetDPStats`: what the search does
with costs and statistics. Costs are compared and added; how they are added is left open, so
that rounding is covered. What is estimated from two statistics is a parameter.

`explained_run` is the invariant of a run, `improves_run` says that recorded costs never
rise. -/
namespace PgYaap
namespace JoinEnumeration

open LogicalPlan QueryGraphEdges

/-- What is computed from statistics (`EstimateCardinality`, `CombineStats`,
`CombineReorderableStats`), and the statistics of the relations. -/
structure StatisticsHelper (Stats : Type) where
  relationStats : Nat → Stats
  noStats : Stats
  cardinality : Stats → Nat
  estimateCardinality : RelationSet → RelationSet → Stats → Stats →
    List JoinOrderNeighborInfo → Nat
  combineStats : Stats → Stats → Nat → List JoinOrderNeighborInfo → Stats
  combineReorderableStats : Stats → Stats → Nat → Stats

variable {Cost Stats : Type} [LinearOrder Cost] [Add Cost] [Zero Cost] [NatCast Cost]
  (helper : StatisticsHelper Stats)

/-- `GetDPStats`, the descent to the children bounded by fuel. -/
def getDPStatsFrom (state : EnumeratorState Cost Stats) : Nat → RelationSet → Stats
  | 0, _ => helper.noStats
  | fuel + 1, mask =>
    if mask.card ≤ 1 then helper.relationStats (lowestRelationIndex mask)
    else
      (state.dpStats mask).getD ((state.plans mask).elim helper.noStats fun node =>
        if node.isLeaf then helper.noStats
        else helper.combineReorderableStats (getDPStatsFrom state fuel node.leftSet)
          (getDPStatsFrom state fuel node.rightSet) node.cardinality)

/-- `GetDPStats`; the children of a plan have fewer relations than the plan. -/
def getDPStats (mask : RelationSet) (state : EnumeratorState Cost Stats) : Stats :=
  getDPStatsFrom helper state (mask.card + 1) mask

/-- `ComputeCost`; only called for two recorded plans. -/
def computeCost (left right : RelationSet) (joinCardinality : Nat)
    (state : EnumeratorState Cost Stats) : Cost :=
  (state.plans left).elim 0 JoinOrderDPJoinNode.cost +
    (state.plans right).elim 0 JoinOrderDPJoinNode.cost + (joinCardinality : Cost)

/-- `EstimateCardinality` from the statistics of the two sides. -/
def estimate (left right : RelationSet) (state : EnumeratorState Cost Stats)
    (connections : List JoinOrderNeighborInfo) : Nat :=
  helper.estimateCardinality left right (getDPStats helper left state)
    (getDPStats helper right state) connections

/-- The cost of joining two recorded plans. -/
def pairCost (left right : RelationSet) (state : EnumeratorState Cost Stats)
    (connections : List JoinOrderNeighborInfo) : Cost :=
  computeCost left right (estimate helper left right state connections) state

variable (Cost) in
/-- `JoinOrderCostModel`. -/
def costModel : JoinOrderCostModel Cost Stats where
  estimateCardinality := estimate helper
  computeCost := computeCost
  combineStats left right cardinality state connections :=
    helper.combineStats (getDPStats helper left state) (getDPStats helper right state) cardinality
      connections
  getDPStatsCardinality mask state := helper.cardinality (getDPStats helper mask state)
  zeroCost := 0
  costLess a b := a < b
  costEqual a b := a = b

/-! ## One `try_record` -/

section Recording

variable {helper} {left right : RelationSet} {connections : List JoinOrderNeighborInfo}
  {state : EnumeratorState Cost Stats}

theorem le_of_replaces {cardinality : Nat} {cost : Cost} {existing : JoinOrderDPJoinNode Cost}
    (h : replaces (costModel Cost helper) left right connections cardinality cost existing state =
      true) : cost ≤ existing.cost := by
  rw [replaces] at h
  by_cases hless : cost < existing.cost
  · exact hless.le
  · rw [if_neg (show ¬ (costModel Cost helper).costLess cost existing.cost = true by
      simpa [costModel] using hless)] at h
    by_cases hequal : cost = existing.cost
    · exact hequal.le
    · rw [if_pos (by simpa [costModel] using hequal)] at h
      exact absurd h Bool.false_ne_true

theorem le_of_not_replaces {cardinality : Nat} {cost : Cost} {existing : JoinOrderDPJoinNode Cost}
    (h : ¬ replaces (costModel Cost helper) left right connections cardinality cost existing
      state = true) : existing.cost ≤ cost := by
  by_contra hlt
  refine h ?_
  rw [replaces]
  exact if_pos (decide_eq_true (not_le.1 hlt))

variable (helper left right connections state) in
/-- What a `try_record` can do: keep a plan that costs no more, or put the pair in place of a
plan that costs no less. -/
theorem tryRecord_cases :
    (tryRecord (costModel Cost helper) left right connections state = state ∧
      ∃ existing, state.plans (left ∪ right) = some existing ∧
        existing.cost ≤ pairCost helper left right state connections) ∨
    ((∃ stats, tryRecord (costModel Cost helper) left right connections state =
      { state with
        plans := Function.update state.plans (left ∪ right) (some
          ⟨left ∪ right, connections.head?, false, left, right,
            pairCost helper left right state connections,
            estimate helper left right state connections⟩)
        dpStats := Function.update state.dpStats (left ∪ right) (some stats) }) ∧
      ∀ existing, state.plans (left ∪ right) = some existing →
        pairCost helper left right state connections ≤ existing.cost) := by
  rw [tryRecord]
  cases hplan : state.plans (left ∪ right) with
  | none =>
    refine Or.inr ⟨?_, fun _ hnone => absurd hnone (Option.some_ne_none _).symm⟩
    rw [Option.elim_none, if_pos rfl]
    exact ⟨_, rfl⟩
  | some existing =>
    rw [Option.elim_some]
    by_cases hreplaces : replaces (costModel Cost helper) left right connections
        (estimate helper left right state connections)
        (pairCost helper left right state connections) existing state = true
    · refine Or.inr ⟨?_, fun other hother => ?_⟩
      · rw [if_pos (by exact hreplaces)]
        exact ⟨_, rfl⟩
      · obtain rfl := Option.some.inj hother
        exact le_of_replaces hreplaces
    · refine Or.inl ⟨?_, existing, rfl, le_of_not_replaces hreplaces⟩
      rw [if_neg (by exact hreplaces)]

/-- A `try_record` leaves a plan of its union that costs no more than the pair. -/
theorem tryRecord_cost_le : ∃ node,
    (tryRecord (costModel Cost helper) left right connections state).plans (left ∪ right) =
      some node ∧
      node.cost ≤ pairCost helper left right state connections := by
  rcases tryRecord_cases helper left right connections state with
    ⟨heq, existing, hplan, hle⟩ | ⟨⟨stats, heq⟩, -⟩
  · rw [heq]
    exact ⟨existing, hplan, hle⟩
  · rw [heq]
    exact ⟨_, Function.update_self .., le_rfl⟩

theorem tryRecord_dpStats_of_ne {mask : RelationSet} (h : mask ≠ left ∪ right) :
    (tryRecord (costModel Cost helper) left right connections state).dpStats mask =
      state.dpStats mask := by
  rcases tryRecord_cases helper left right connections state with
    ⟨heq, -⟩ | ⟨⟨stats, heq⟩, -⟩
  · rw [heq]
  · rw [heq]
    exact Function.update_of_ne h _ _

end Recording

/-! ## Costs along a run -/

/-- Recorded plans stay recorded, and their costs do not rise. -/
def Improves (state state' : EnumeratorState Cost Stats) : Prop :=
  ∀ mask node, state.plans mask = some node →
    ∃ node', state'.plans mask = some node' ∧ node'.cost ≤ node.cost

omit [Add Cost] [Zero Cost] [NatCast Cost] in
theorem Improves.refl (state : EnumeratorState Cost Stats) : Improves state state :=
  fun _ node h => ⟨node, h, le_rfl⟩

omit [Add Cost] [Zero Cost] [NatCast Cost] in
theorem Improves.trans {s s' s'' : EnumeratorState Cost Stats} (h : Improves s s')
    (h' : Improves s' s'') : Improves s s'' := by
  intro mask node hnode
  obtain ⟨node', hnode', hle⟩ := h mask node hnode
  obtain ⟨node'', hnode'', hle'⟩ := h' mask node' hnode'
  exact ⟨node'', hnode'', hle'.trans hle⟩

theorem improves_tryRecord (left right : RelationSet) (connections : List JoinOrderNeighborInfo)
    (state : EnumeratorState Cost Stats) :
    Improves state (tryRecord (costModel Cost helper) left right connections state) := by
  intro mask node hnode
  rcases tryRecord_cases helper left right connections state with
    ⟨heq, -⟩ | ⟨⟨stats, heq⟩, hle⟩
  · rw [heq]
    exact ⟨node, hnode, le_rfl⟩
  · rw [heq]
    by_cases hmask : mask = left ∪ right
    · subst hmask
      exact ⟨_, Function.update_self .., hle node hnode⟩
    · exact ⟨node, (Function.update_of_ne hmask _ _).trans hnode, le_rfl⟩

/-! ## What explains a plan -/

/-- A recorded plan: of a single relation, or of two recorded plans for disjoint sets that its
connection links, with the costs of both and its own cardinality. -/
def ExplainedPlan (root : QueryEdge) (state : EnumeratorState Cost Stats) (mask : RelationSet)
    (node : JoinOrderDPJoinNode Cost) : Prop :=
  (node.isLeaf = true ∧ mask.card = 1) ∨
  (node.isLeaf = false ∧ node.leftSet.Nonempty ∧ node.rightSet.Nonempty ∧
    Disjoint node.leftSet node.rightSet ∧ node.leftSet ∪ node.rightSet = mask ∧
    (∃ connection ∈ getConnections root node.leftSet node.rightSet,
      node.info = some connection) ∧
    ∃ left right, state.plans node.leftSet = some left ∧ state.plans node.rightSet = some right ∧
      node.cost = left.cost + right.cost + (node.cardinality : Cost))

/-- **The invariant of a run** after the calls for the pairs in `done`. -/
structure Explained (root : QueryEdge) (done : List (RelationSet × RelationSet))
    (state : EnumeratorState Cost Stats) : Prop where
  plan : ∀ mask node, state.plans mask = some node → ExplainedPlan root state mask node
  tried : ∀ mask node, state.plans mask = some node → node.isLeaf = false →
    (node.leftSet, node.rightSet) ∈ done ∨ (node.rightSet, node.leftSet) ∈ done
  stats : ∀ mask, state.plans mask ≠ none → mask.card ≤ 1 ∨ state.dpStats mask ≠ none

/-- The union is no side of a pair. -/
def Apart (union : RelationSet) (pairs : List (RelationSet × RelationSet)) : Prop :=
  ∀ pair ∈ pairs, union ≠ pair.1 ∧ union ≠ pair.2

/-- The sides that a pair is recorded for. -/
structure Recordable (root : QueryEdge) (left right : RelationSet)
    (state : EnumeratorState Cost Stats) : Prop where
  left_nonempty : left.Nonempty
  right_nonempty : right.Nonempty
  disjoint : Disjoint left right
  left_planned : state.plans left ≠ none
  right_planned : state.plans right ≠ none
  linked : getConnections root left right ≠ []

namespace Recordable

variable {root : QueryEdge} {left right : RelationSet} {state : EnumeratorState Cost Stats}

omit [LinearOrder Cost] [Add Cost] [Zero Cost] [NatCast Cost] in
theorem left_ne_union (h : Recordable root left right state) : left ≠ left ∪ right := by
  intro heq
  obtain ⟨r, hr⟩ := h.right_nonempty
  exact Finset.disjoint_left.1 h.disjoint (heq ▸ Finset.mem_union_right left hr) hr

omit [LinearOrder Cost] [Add Cost] [Zero Cost] [NatCast Cost] in
theorem right_ne_union (h : Recordable root left right state) : right ≠ left ∪ right := by
  intro heq
  obtain ⟨r, hr⟩ := h.left_nonempty
  exact Finset.disjoint_left.1 h.disjoint hr (heq ▸ Finset.mem_union_left right hr)

end Recordable

omit [LinearOrder Cost] [Zero Cost] in
theorem Explained.mono {root : QueryEdge} {done done' : List (RelationSet × RelationSet)}
    {state : EnumeratorState Cost Stats} (h : Explained root done state) (hsub : done ⊆ done') :
    Explained root done' state :=
  ⟨h.plan, fun mask node hnode hleaf => (h.tried mask node hnode hleaf).imp (hsub ·) (hsub ·),
    h.stats⟩

/-- **One `try_record`** keeps the invariant, if its union is no side of an earlier pair. -/
theorem Explained.recorded {root : QueryEdge} {done done' : List (RelationSet × RelationSet)}
    {state : EnumeratorState Cost Stats} {left right : RelationSet} (h : Explained root done state)
    (hrecordable : Recordable root left right state) (hapart : Apart (left ∪ right) done)
    (hsub : done ⊆ done') (hmem : (left, right) ∈ done' ∨ (right, left) ∈ done') :
    Explained root done' (tryRecord (costModel Cost helper) left right
      (getConnections root left right) state) := by
  rcases tryRecord_cases helper left right (getConnections root left right) state with
    ⟨heq, -⟩ | ⟨⟨stats, heq⟩, -⟩
  · rw [heq]
    exact h.mono hsub
  · rw [heq]
    obtain ⟨l, hl⟩ := Option.ne_none_iff_exists'.1 hrecordable.left_planned
    obtain ⟨r, hr⟩ := Option.ne_none_iff_exists'.1 hrecordable.right_planned
    refine ⟨?_, ?_, ?_⟩
    · intro mask node hnode
      by_cases hmask : mask = left ∪ right
      · subst hmask
        dsimp only at hnode
        rw [Function.update_self, Option.some.injEq] at hnode
        subst hnode
        obtain ⟨connection, rest, hconnections⟩ := List.exists_cons_of_ne_nil hrecordable.linked
        refine Or.inr ⟨rfl, hrecordable.left_nonempty, hrecordable.right_nonempty,
          hrecordable.disjoint, rfl, ⟨connection, ?_, ?_⟩, l, r, ?_, ?_, ?_⟩
        · exact hconnections ▸ List.mem_cons_self
        · exact congrArg List.head? hconnections
        · exact (Function.update_of_ne hrecordable.left_ne_union _ _).trans hl
        · exact (Function.update_of_ne hrecordable.right_ne_union _ _).trans hr
        · simp only [pairCost, computeCost, hl, hr, Option.elim_some]
      · dsimp only at hnode
        rw [Function.update_of_ne hmask] at hnode
        refine (h.plan mask node hnode).imp id ?_
        rintro ⟨hleaf, hleft, hright, hdisj, hunion, hinfo, l', r', hl', hr', hcost⟩
        -- the children of another plan are sides of an earlier pair
        have hapart' : left ∪ right ≠ node.leftSet ∧ left ∪ right ≠ node.rightSet := by
          rcases h.tried mask node hnode hleaf with hpair | hpair
          · exact hapart _ hpair
          · exact (hapart _ hpair).symm
        exact ⟨hleaf, hleft, hright, hdisj, hunion, hinfo, l', r',
          (Function.update_of_ne hapart'.1.symm _ _).trans hl',
          (Function.update_of_ne hapart'.2.symm _ _).trans hr', hcost⟩
    · intro mask node hnode hleaf
      dsimp only at hnode
      by_cases hmask : mask = left ∪ right
      · subst hmask
        rw [Function.update_self, Option.some.injEq] at hnode
        subst hnode
        exact hmem
      · rw [Function.update_of_ne hmask] at hnode
        exact (h.tried mask node hnode hleaf).imp (hsub ·) (hsub ·)
    · intro mask hmask
      dsimp only at hmask ⊢
      by_cases hunion : mask = left ∪ right
      · subst hunion
        rw [Function.update_self]
        exact Or.inr (Option.some_ne_none _)
      · rw [Function.update_of_ne hunion] at hmask ⊢
        exact h.stats mask hmask

/-! ## The states of a run -/

/-- `TryEmitPair` up to its first `try_record`, after the call is noted. -/
def firstRecord (model : JoinOrderCostModel Cost Stats) (root : QueryEdge)
    (left right : RelationSet) (state : EnumeratorState Cost Stats) :
    EnumeratorState Cost Stats :=
  if left = ∅ ∨ right = ∅ ∨ left ∩ right ≠ ∅ then state
  else if state.plans left = none ∨ state.plans right = none then state
  else if getConnections root left right = [] then state
  else tryRecord model left right (getConnections root left right) state

/-- A call as it is noted. -/
def noteCall (pair : RelationSet × RelationSet) (state : EnumeratorState Cost Stats) :
    EnumeratorState Cost Stats :=
  { state with
    emitted := state.emitted ++
      [⟨pair.1, pair.2, state.plans pair.1, state.plans pair.2⟩] }

/-- The calls of `TryEmitPair` for some pairs. -/
def emitPairs (model : JoinOrderCostModel Cost Stats) (root : QueryEdge)
    (pairs : List (RelationSet × RelationSet)) (state : EnumeratorState Cost Stats) :
    EnumeratorState Cost Stats :=
  pairs.foldl (fun s pair => tryEmitPair model root pair.1 pair.2 s) state

/-- **All states of a run**: before each call of `TryEmitPair`, between its two `try_record`s,
and at the end. -/
def runStates (model : JoinOrderCostModel Cost Stats) (root : QueryEdge) :
    List (RelationSet × RelationSet) → EnumeratorState Cost Stats →
      List (EnumeratorState Cost Stats)
  | [], state => [state]
  | pair :: rest, state => state :: firstRecord model root pair.1 pair.2 (noteCall pair state) ::
      runStates model root rest (tryEmitPair model root pair.1 pair.2 state)

section Calls

variable {root : QueryEdge} {left right : RelationSet} {state : EnumeratorState Cost Stats}

omit [LinearOrder Cost] [Add Cost] [Zero Cost] [NatCast Cost] in
/-- What a call does: nothing, or a `try_record` of the pair, and for a semi or anti join one
of the reverse. -/
theorem recordPair_steps (model : JoinOrderCostModel Cost Stats) (root : QueryEdge)
    (left right : RelationSet) (state : EnumeratorState Cost Stats) :
    (¬ Recordable root left right state ∧ firstRecord model root left right state = state ∧
      recordPair model root left right state = state) ∨
    (Recordable root left right state ∧
      firstRecord model root left right state =
        tryRecord model left right (getConnections root left right) state ∧
      recordPair model root left right state =
        if isSemiOrAntiJoinType (primaryJoinType (getConnections root left right)) = true ∧
            getConnections root right left ≠ [] then
          tryRecord model right left (getConnections root right left)
            (tryRecord model left right (getConnections root left right) state)
        else tryRecord model left right (getConnections root left right) state) := by
  rw [firstRecord, recordPair]
  by_cases hsides : left = ∅ ∨ right = ∅ ∨ left ∩ right ≠ ∅
  · refine Or.inl ⟨fun h => ?_, if_pos hsides, if_pos hsides⟩
    rcases hsides with hleft | hright | hmeet
    · exact h.left_nonempty.ne_empty hleft
    · exact h.right_nonempty.ne_empty hright
    · exact hmeet (Finset.disjoint_iff_inter_eq_empty.1 h.disjoint)
  · rw [if_neg hsides, if_neg hsides]
    by_cases hplans : state.plans left = none ∨ state.plans right = none
    · refine Or.inl ⟨fun h => ?_, if_pos hplans, if_pos hplans⟩
      exact hplans.elim h.left_planned h.right_planned
    · rw [if_neg hplans, if_neg hplans]
      dsimp only
      by_cases hconn : getConnections root left right = []
      · exact Or.inl ⟨fun h => h.linked hconn, if_pos hconn, if_pos hconn⟩
      · rw [not_or, not_or, ← ne_eq, ← ne_eq, not_not, ← Finset.nonempty_iff_ne_empty,
          ← Finset.nonempty_iff_ne_empty, ← Finset.disjoint_iff_inter_eq_empty] at hsides
        rw [not_or] at hplans
        rw [if_neg hconn, if_neg hconn]
        refine Or.inr ⟨⟨hsides.1, hsides.2.1, hsides.2.2, hplans.1, hplans.2, hconn⟩, rfl, ?_⟩
        by_cases hsemi :
            isSemiOrAntiJoinType (primaryJoinType (getConnections root left right)) = true
        · rw [if_pos hsemi]
          by_cases hreverse : getConnections root right left = []
          · rw [if_pos hreverse, if_neg fun h => h.2 hreverse]
          · rw [if_neg hreverse, if_pos ⟨hsemi, hreverse⟩]
        · rw [if_neg hsemi, if_neg fun h => hsemi h.1]

omit [LinearOrder Cost] [Add Cost] [Zero Cost] [NatCast Cost] in
/-- A pair that was recorded can be recorded the other way round. -/
theorem Recordable.reverse (h : Recordable root left right state)
    (model : JoinOrderCostModel Cost Stats) (connections : List JoinOrderNeighborInfo)
    (hreverse : getConnections root right left ≠ []) :
    Recordable root right left (tryRecord model left right connections state) := by
  refine ⟨h.right_nonempty, h.left_nonempty, h.disjoint.symm, ?_, ?_, hreverse⟩
  · exact tryRecord_keeps _ _ _ _ _ h.right_planned
  · exact tryRecord_keeps _ _ _ _ _ h.left_planned

theorem improves_firstRecord :
    Improves state (firstRecord (costModel Cost helper) root left right state) := by
  rcases recordPair_steps (costModel Cost helper) root left right state with
    ⟨-, heq, -⟩ | ⟨-, heq, -⟩
  · rw [heq]
    exact Improves.refl state
  · rw [heq]
    exact improves_tryRecord helper left right _ state

theorem firstRecord_improves :
    Improves (firstRecord (costModel Cost helper) root left right state)
      (recordPair (costModel Cost helper) root left right state) := by
  rcases recordPair_steps (costModel Cost helper) root left right state with
    ⟨-, heq, heq'⟩ | ⟨-, heq, heq'⟩
  · rw [heq, heq']
    exact Improves.refl state
  · rw [heq, heq']
    split
    · exact improves_tryRecord helper right left _ _
    · exact Improves.refl _

/-- **One call** keeps the invariant, in between as well. -/
theorem Explained.call {done : List (RelationSet × RelationSet)} (h : Explained root done state)
    (hapart : Apart (left ∪ right) done) :
    Explained root (done ++ [(left, right)])
        (firstRecord (costModel Cost helper) root left right state) ∧
      Explained root (done ++ [(left, right)])
        (recordPair (costModel Cost helper) root left right state) := by
  have hsub : done ⊆ done ++ [(left, right)] := List.subset_append_left done _
  have hmem : (left, right) ∈ done ++ [(left, right)] :=
    List.mem_append_right _ (List.mem_singleton_self _)
  rcases recordPair_steps (costModel Cost helper) root left right state with
    ⟨-, heq, heq'⟩ | ⟨hrecordable, heq, heq'⟩
  · rw [heq, heq']
    exact ⟨h.mono hsub, h.mono hsub⟩
  · have hfirst := h.recorded helper hrecordable hapart hsub (Or.inl hmem)
    rw [heq, heq']
    refine ⟨hfirst, ?_⟩
    split
    · rename_i hreverse
      refine hfirst.recorded helper (hrecordable.reverse _ _ hreverse.2) ?_ (List.Subset.refl _)
        (Or.inr hmem)
      intro pair hpair
      rw [Finset.union_comm]
      rcases List.mem_append.1 hpair with hdone | hlast
      · exact hapart pair hdone
      · rw [List.mem_singleton.1 hlast]
        exact ⟨hrecordable.left_ne_union.symm, hrecordable.right_ne_union.symm⟩
    · exact hfirst

end Calls

omit [LinearOrder Cost] [Add Cost] [Zero Cost] [NatCast Cost] in
theorem tryEmitPair_eq (model : JoinOrderCostModel Cost Stats) (root : QueryEdge)
    (pair : RelationSet × RelationSet) (state : EnumeratorState Cost Stats) :
    tryEmitPair model root pair.1 pair.2 state =
      recordPair model root pair.1 pair.2 (noteCall pair state) := rfl

omit [LinearOrder Cost] [Zero Cost] in
theorem Explained.noteCall {root : QueryEdge} {done : List (RelationSet × RelationSet)}
    {state : EnumeratorState Cost Stats} (h : Explained root done state)
    (pair : RelationSet × RelationSet) : Explained root done (noteCall pair state) :=
  ⟨h.plan, h.tried, h.stats⟩

/-- Pairs in an order in which no union is a side of an earlier pair. -/
def Ordered (pairs : List (RelationSet × RelationSet)) : Prop :=
  pairs.Pairwise fun pair later => later.1 ∪ later.2 ≠ pair.1 ∧ later.1 ∪ later.2 ≠ pair.2

theorem Ordered.apart {done rest : List (RelationSet × RelationSet)}
    {pair : RelationSet × RelationSet} (h : Ordered (done ++ pair :: rest)) :
    Apart (pair.1 ∪ pair.2) done := fun earlier hmem =>
  (List.pairwise_append.1 h).2.2 earlier hmem pair List.mem_cons_self

/-- **The invariant holds in every state of a run.** -/
theorem explained_run {root : QueryEdge} {done pairs : List (RelationSet × RelationSet)}
    {state : EnumeratorState Cost Stats} (h : Explained root done state)
    (hordered : Ordered (done ++ pairs)) :
    (∀ s ∈ runStates (costModel Cost helper) root pairs state, Explained root (done ++ pairs) s) ∧
      Explained root (done ++ pairs) (emitPairs (costModel Cost helper) root pairs state) := by
  induction pairs generalizing done state with
  | nil =>
    rw [List.append_nil]
    refine ⟨fun s hs => ?_, h⟩
    rw [List.mem_singleton.1 hs]
    exact h
  | cons pair rest ih =>
    obtain ⟨hfirst, hcall⟩ := (h.noteCall pair).call helper hordered.apart
    have hsplit : done ++ pair :: rest = (done ++ [pair]) ++ rest := by
      rw [List.append_assoc, List.singleton_append]
    rw [hsplit] at hordered ⊢
    obtain ⟨hstates, hfinal⟩ := ih hcall hordered
    refine ⟨fun s hs => ?_, hfinal⟩
    rcases List.mem_cons.1 hs with rfl | hs
    · exact h.mono fun p hp => List.mem_append_left _ (List.mem_append_left _ hp)
    · rcases List.mem_cons.1 hs with rfl | hs
      · exact hfirst.mono (List.subset_append_left _ _)
      · exact hstates s hs

/-- **Costs never rise** from a state of a run to a later one. -/
theorem improves_run (root : QueryEdge) (pairs : List (RelationSet × RelationSet))
    (state : EnumeratorState Cost Stats) :
    (∀ s ∈ runStates (costModel Cost helper) root pairs state, Improves state s) ∧
      (runStates (costModel Cost helper) root pairs state).Pairwise Improves := by
  induction pairs generalizing state with
  | nil =>
    refine ⟨fun s hs => ?_, List.pairwise_singleton _ _⟩
    rw [List.mem_singleton.1 hs]
    exact Improves.refl state
  | cons pair rest ih =>
    have hnote : Improves state (noteCall pair state) := fun mask node hnode =>
      ⟨node, hnode, le_rfl⟩
    have hfirst : Improves state
        (firstRecord (costModel Cost helper) root pair.1 pair.2 (noteCall pair state)) :=
      hnote.trans (improves_firstRecord helper)
    have hcall : Improves
        (firstRecord (costModel Cost helper) root pair.1 pair.2 (noteCall pair state))
        (tryEmitPair (costModel Cost helper) root pair.1 pair.2 state) := firstRecord_improves helper
    obtain ⟨hrest, hpairwise⟩ := ih (tryEmitPair (costModel Cost helper) root pair.1 pair.2 state)
    have hlater : ∀ s ∈ runStates (costModel Cost helper) root rest
        (tryEmitPair (costModel Cost helper) root pair.1 pair.2 state),
        Improves (firstRecord (costModel Cost helper) root pair.1 pair.2 (noteCall pair state)) s :=
      fun s hs => hcall.trans (hrest s hs)
    have hall : ∀ s ∈ firstRecord (costModel Cost helper) root pair.1 pair.2 (noteCall pair state) ::
        runStates (costModel Cost helper) root rest
          (tryEmitPair (costModel Cost helper) root pair.1 pair.2 state), Improves state s :=
      List.forall_mem_cons.2 ⟨hfirst, fun s hs => hfirst.trans (hlater s hs)⟩
    refine ⟨List.forall_mem_cons.2 ⟨Improves.refl state, hall⟩, ?_⟩
    exact List.pairwise_cons.2 ⟨hall, List.pairwise_cons.2 ⟨hlater, hpairwise⟩⟩

theorem emitPairs_mem_runStates (root : QueryEdge) (pairs : List (RelationSet × RelationSet))
    (state : EnumeratorState Cost Stats) : emitPairs (costModel Cost helper) root pairs state ∈
      runStates (costModel Cost helper) root pairs state := by
  induction pairs generalizing state with
  | nil => exact List.mem_singleton_self _
  | cons pair rest ih => exact List.mem_cons_of_mem _ (List.mem_cons_of_mem _ (ih _))

theorem improves_emitPairs (root : QueryEdge) (pairs : List (RelationSet × RelationSet))
    (state : EnumeratorState Cost Stats) :
    Improves state (emitPairs (costModel Cost helper) root pairs state) :=
  (improves_run helper root pairs state).1 _ (emitPairs_mem_runStates helper root pairs state)

end JoinEnumeration
end PgYaap
