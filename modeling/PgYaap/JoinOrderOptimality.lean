import PgYaap.JoinOrderCosts

/-! # The final plans of the exact join order search

Plans and statistics of the two sides of a pair are final when the pair is tried, so the plan
of the union beats the pair by the final costs as well (`beats_emitPairs`). With the calls of
a run, which try every two plannable linked sets, this is `solveJoinOrderExactly_optimal`. -/
namespace PgYaap
namespace JoinEnumeration

open LogicalPlan QueryGraphEdges

variable {Cost Stats : Type} [LinearOrder Cost] [Add Cost] [Zero Cost] [NatCast Cost]
  (helper : StatisticsHelper Stats)

/-! ## What a call leaves alone -/

/-- The plan and the statistics of a set are the same. -/
def Kept (mask : RelationSet) (state state' : EnumeratorState Cost Stats) : Prop :=
  state'.plans mask = state.plans mask ∧ state'.dpStats mask = state.dpStats mask

theorem kept_tryRecord {mask left right : RelationSet} (h : left ∪ right ≠ mask)
    (connections : List JoinOrderNeighborInfo) (state : EnumeratorState Cost Stats) :
    Kept mask state (tryRecord (costModel Cost helper) left right connections state) :=
  ⟨tryRecord_plans_of_ne _ _ _ _ _ h.symm, tryRecord_dpStats_of_ne h.symm⟩

omit [LinearOrder Cost] [Add Cost] [Zero Cost] [NatCast Cost] in
theorem Kept.trans {mask : RelationSet} {s s' s'' : EnumeratorState Cost Stats}
    (h : Kept mask s s') (h' : Kept mask s' s'') : Kept mask s s'' :=
  ⟨h'.1.trans h.1, h'.2.trans h.2⟩

theorem kept_tryEmitPair {mask : RelationSet} (root : QueryEdge)
    {pair : RelationSet × RelationSet} (h : pair.1 ∪ pair.2 ≠ mask)
    (state : EnumeratorState Cost Stats) :
    Kept mask state (tryEmitPair (costModel Cost helper) root pair.1 pair.2 state) := by
  rw [tryEmitPair_eq]
  have hnote : Kept mask state (noteCall pair state) := ⟨rfl, rfl⟩
  refine hnote.trans ?_
  rcases recordPair_steps (costModel Cost helper) root pair.1 pair.2 (noteCall pair state) with
    ⟨-, -, heq⟩ | ⟨-, -, heq⟩
  · rw [heq]
    exact ⟨rfl, rfl⟩
  · rw [heq]
    split
    · exact (kept_tryRecord helper h _ _).trans
        (kept_tryRecord helper (Finset.union_comm pair.1 pair.2 ▸ h) _ _)
    · exact kept_tryRecord helper h _ _

theorem kept_emitPairs {mask : RelationSet} (root : QueryEdge)
    {pairs : List (RelationSet × RelationSet)} (h : ∀ pair ∈ pairs, pair.1 ∪ pair.2 ≠ mask)
    (state : EnumeratorState Cost Stats) :
    Kept mask state (emitPairs (costModel Cost helper) root pairs state) := by
  induction pairs generalizing state with
  | nil => exact ⟨rfl, rfl⟩
  | cons pair rest ih =>
    obtain ⟨hpair, hrest⟩ := List.forall_mem_cons.1 h
    exact (kept_tryEmitPair helper root hpair state).trans (ih hrest _)

omit [LinearOrder Cost] [Add Cost] [Zero Cost] [NatCast Cost] in
/-- `GetDPStats` reads the recorded statistics of the set, where it has more relations. -/
theorem getDPStats_congr {mask : RelationSet} {state state' : EnumeratorState Cost Stats}
    (h : Kept mask state state') (hstats : mask.card ≤ 1 ∨ state.dpStats mask ≠ none) :
    getDPStats helper mask state' = getDPStats helper mask state := by
  rw [getDPStats, getDPStats, getDPStatsFrom, getDPStatsFrom]
  by_cases hcard : mask.card ≤ 1
  · rw [if_pos hcard, if_pos hcard]
  · obtain ⟨stats, hsome⟩ := Option.ne_none_iff_exists'.1 (hstats.resolve_left hcard)
    rw [if_neg hcard, if_neg hcard, h.2, hsome]
    rfl

omit [LinearOrder Cost] in
theorem pairCost_congr {left right : RelationSet} {state state' : EnumeratorState Cost Stats}
    (hleft : Kept left state state') (hright : Kept right state state')
    (hleftstats : left.card ≤ 1 ∨ state.dpStats left ≠ none)
    (hrightstats : right.card ≤ 1 ∨ state.dpStats right ≠ none)
    (connections : List JoinOrderNeighborInfo) :
    pairCost helper left right state' connections =
      pairCost helper left right state connections := by
  rw [pairCost, pairCost, estimate, estimate, getDPStats_congr helper hleft hleftstats,
    getDPStats_congr helper hright hrightstats, computeCost, computeCost, hleft.1, hright.1]

/-! ## What could be made of the final plans -/

/-- The recorded plan of the union of two sides costs no more than the pair, nor, for a semi
or anti join, than its reverse. -/
def Beats (root : QueryEdge) (left right : RelationSet)
    (state : EnumeratorState Cost Stats) : Prop :=
  ∃ node, state.plans (left ∪ right) = some node ∧
    node.cost ≤ pairCost helper left right state (getConnections root left right) ∧
    (isSemiOrAntiJoinType (primaryJoinType (getConnections root left right)) = true →
      getConnections root right left ≠ [] →
        node.cost ≤ pairCost helper right left state (getConnections root right left))

/-- **Right after a call** the plan of the union beats the pair. -/
theorem beats_recordPair {root : QueryEdge} {left right : RelationSet}
    {state : EnumeratorState Cost Stats} (h : Recordable root left right state)
    (hleft : left.card ≤ 1 ∨ state.dpStats left ≠ none)
    (hright : right.card ≤ 1 ∨ state.dpStats right ≠ none) :
    ∃ node, (recordPair (costModel Cost helper) root left right state).plans (left ∪ right) =
        some node ∧
      node.cost ≤ pairCost helper left right state (getConnections root left right) ∧
      (isSemiOrAntiJoinType (primaryJoinType (getConnections root left right)) = true →
        getConnections root right left ≠ [] →
          node.cost ≤ pairCost helper right left state (getConnections root right left)) := by
  rcases recordPair_steps (costModel Cost helper) root left right state with ⟨hnot, -⟩ | ⟨-, -, heq⟩
  · exact absurd h hnot
  · rw [heq]
    obtain ⟨node, hnode, hle⟩ := @tryRecord_cost_le Cost Stats _ _ _ _ helper left right
      (getConnections root left right) state
    split
    · have hkeptleft := @kept_tryRecord Cost Stats _ _ _ _ helper left left right
        h.left_ne_union.symm (getConnections root left right) state
      have hkeptright := @kept_tryRecord Cost Stats _ _ _ _ helper right left right
        h.right_ne_union.symm (getConnections root left right) state
      obtain ⟨node', hnode', hle'⟩ := improves_tryRecord helper right left
        (getConnections root right left) _ _ node hnode
      obtain ⟨node'', hnode'', hle''⟩ := @tryRecord_cost_le Cost Stats _ _ _ _ helper right left
        (getConnections root right left) (tryRecord (costModel Cost helper) left right
          (getConnections root left right) state)
      rw [Finset.union_comm, hnode', Option.some.injEq] at hnode''
      subst hnode''
      rw [pairCost_congr helper hkeptright hkeptleft hright hleft] at hle''
      exact ⟨node', hnode', hle'.trans hle, fun _ _ => hle''⟩
    · rename_i hnot
      exact ⟨node, hnode, hle, fun hsemi hreverse => absurd ⟨hsemi, hreverse⟩ hnot⟩

/-- **At the end of a run** as well, with the final plans of the two sides. -/
theorem beats_emitPairs {root : QueryEdge} {before after : List (RelationSet × RelationSet)}
    {left right : RelationSet} {state : EnumeratorState Cost Stats} (h : Explained root [] state)
    (hordered : Ordered (before ++ (left, right) :: after)) (hleft : left.Nonempty)
    (hright : right.Nonempty) (hdisj : Disjoint left right)
    (hlinked : getConnections root left right ≠ [])
    (hplanned : (emitPairs (costModel Cost helper) root (before ++ (left, right) :: after)
      state).plans left ≠ none ∧
      (emitPairs (costModel Cost helper) root (before ++ (left, right) :: after)
        state).plans right ≠ none) :
    Beats helper root left right
      (emitPairs (costModel Cost helper) root (before ++ (left, right) :: after) state) := by
  let start := emitPairs (costModel Cost helper) root before state
  let called := tryEmitPair (costModel Cost helper) root left right start
  have hfinal : emitPairs (costModel Cost helper) root (before ++ (left, right) :: after) state =
      emitPairs (costModel Cost helper) root after called := by
    rw [emitPairs, List.foldl_append, List.foldl_cons]
    rfl
  rw [hfinal] at hplanned ⊢
  -- no later call touches the two sides
  have hafter := (List.pairwise_cons.1 (List.pairwise_append.1 hordered).2.1).1
  have hkept : ∀ mask, mask = left ∨ mask = right → Kept mask (noteCall (left, right) start)
      (emitPairs (costModel Cost helper) root after called) := by
    intro mask hmask
    have hne : left ∪ right ≠ mask := by
      rcases hmask with rfl | rfl
      · intro heq
        obtain ⟨r, hr⟩ := hright
        exact Finset.disjoint_left.1 hdisj (heq ▸ Finset.mem_union_right mask hr) hr
      · intro heq
        obtain ⟨r, hr⟩ := hleft
        exact Finset.disjoint_left.1 hdisj hr (heq ▸ Finset.mem_union_left mask hr)
    have hcalled : Kept mask start called := by
      exact @kept_tryEmitPair Cost Stats _ _ _ _ helper mask root (left, right) hne start
    have hnote : Kept mask (noteCall (left, right) start) start := ⟨rfl, rfl⟩
    refine (hnote.trans hcalled).trans (kept_emitPairs helper root (fun pair hpair => ?_) called)
    rcases hmask with rfl | rfl
    · exact (hafter pair hpair).1
    · exact (hafter pair hpair).2
  have hkeptleft := hkept left (Or.inl rfl)
  have hkeptright := hkept right (Or.inr rfl)
  have hstart : Explained root before start := by
    have hbefore : Ordered ([] ++ before) := (List.pairwise_append.1 hordered).1
    exact (explained_run helper h hbefore).2
  have hrecordable : Recordable root left right (noteCall (left, right) start) :=
    ⟨hleft, hright, hdisj, hkeptleft.1 ▸ hplanned.1, hkeptright.1 ▸ hplanned.2, hlinked⟩
  have hleftstats := (hstart.noteCall (left, right)).stats left hrecordable.left_planned
  have hrightstats := (hstart.noteCall (left, right)).stats right hrecordable.right_planned
  obtain ⟨node, hnode, hle, hreverse⟩ :=
    beats_recordPair helper hrecordable hleftstats hrightstats
  obtain ⟨node', hnode', hle'⟩ := improves_emitPairs helper root after called _ node hnode
  refine ⟨node', hnode', ?_, fun hsemi hconn => ?_⟩
  · rw [pairCost_congr helper hkeptleft hkeptright hleftstats hrightstats]
    exact hle'.trans hle
  · rw [pairCost_congr helper hkeptright hkeptleft hrightstats hleftstats]
    exact hle'.trans (hreverse hsemi hconn)

/-! ## The run of a query graph -/

namespace QueryGraph

variable {graph : QueryGraph} {model : JoinOrderCostModel Cost Stats}

omit [LinearOrder Cost] [Add Cost] [Zero Cost] [NatCast Cost] in
theorem emitPairs_append (root : QueryEdge) (pairs later : List (RelationSet × RelationSet))
    (state : EnumeratorState Cost Stats) :
    emitPairs model root (pairs ++ later) state =
      emitPairs model root later (emitPairs model root pairs state) :=
  List.foldl_append ..

omit [LinearOrder Cost] [Add Cost] [Zero Cost] [NatCast Cost] in
/-- The visits of one node are calls, among them those for the planned other sides. -/
theorem foldl_visitOther_calls (node : RelationSet) (others : List RelationSet)
    (state : EnumeratorState Cost Stats) :
    ∃ called : List RelationSet, called.Sublist others ∧
      others.foldl (visitOther graph model node) state =
        emitPairs model graph.root (called.map fun other => (node, other)) state ∧
      ∀ other ∈ others, state.plans other ≠ none → graph.Joins node other → other ∈ called := by
  induction others generalizing state with
  | nil => exact ⟨[], List.Sublist.slnil, rfl, nofun⟩
  | cons other rest ih =>
    rw [List.foldl_cons, visitOther]
    by_cases hvisit : (other.card = 1 ∨ state.plans other ≠ none) ∧
        getConnections graph.root node other ≠ []
    · rw [if_pos hvisit]
      obtain ⟨called, hsub, heq, hmem⟩ := ih (tryEmitPair model graph.root node other state)
      refine ⟨other :: called, hsub.cons_cons other, heq, ?_⟩
      intro other' hother' hplanned hjoins
      rcases List.mem_cons.1 hother' with rfl | hrest
      · exact List.mem_cons_self
      · exact List.mem_cons_of_mem _ (hmem other' hrest
          (tryEmitPair_keeps _ _ _ _ _ hplanned) hjoins)
    · rw [if_neg hvisit]
      obtain ⟨called, hsub, heq, hmem⟩ := ih state
      refine ⟨called, hsub.cons other, heq, ?_⟩
      intro other' hother' hplanned hjoins
      rcases List.mem_cons.1 hother' with rfl | hrest
      · exact absurd ⟨Or.inr hplanned, getConnections_ne_nil_iff.2 hjoins⟩ hvisit
      · exact hmem other' hrest hplanned hjoins

omit [LinearOrder Cost] [Add Cost] [Zero Cost] [NatCast Cost] in
/-- The visits of the nodes are calls for pairs in order, among them those for all plannable
linked pairs. -/
theorem foldl_visitNode_calls {done rest : List RelationSet} {state : EnumeratorState Cost Stats}
    (h : Planned graph done state) (hnodes : graph.nodes = done ++ rest) :
    ∃ called : List (RelationSet × RelationSet),
      called.Sublist (rest.flatMap fun node => (graph.others node).map fun other => (node, other)) ∧
      rest.foldl (visitNode graph model) state = emitPairs model graph.root called state ∧
      ∀ node ∈ rest, ∀ other ∈ graph.others node, Plannable graph node → Plannable graph other →
        graph.Joins node other → (node, other) ∈ called := by
  induction rest generalizing done state with
  | nil => exact ⟨[], List.Sublist.slnil, rfl, nofun⟩
  | cons node rest ih =>
    have hsplit : graph.nodes = (done ++ [node]) ++ rest := by
      rw [hnodes, List.append_assoc, List.singleton_append]
    obtain ⟨later, hsub, heq, hmem⟩ := ih (h.step hnodes) hsplit
    rw [List.foldl_cons, heq, List.flatMap_cons]
    by_cases hvisit : node.card = 1 ∨ state.plans node ≠ none
    · obtain ⟨called, hsub', heq', hmem'⟩ :=
        @foldl_visitOther_calls Cost Stats graph model node (graph.others node) state
      refine ⟨(called.map fun other => (node, other)) ++ later, (hsub'.map _).append hsub, ?_, ?_⟩
      · rw [visitNode, if_pos hvisit, emitPairs_append, emitAll, heq']
      · intro node' hnode' other hother hplannable hplannable' hjoins
        rcases List.mem_cons.1 hnode' with rfl | hrest
        · exact List.mem_append_left _ (List.mem_map_of_mem
            (hmem' other hother (h.other hnodes hother hplannable') hjoins))
        · exact List.mem_append_right _ (hmem node' hrest other hother hplannable hplannable' hjoins)
    · refine ⟨later, hsub.trans (List.sublist_append_right _ _), ?_, ?_⟩
      · rw [visitNode, if_neg hvisit]
      · intro node' hnode' other hother hplannable hplannable' hjoins
        rcases List.mem_cons.1 hnode' with rfl | hrest
        · exact absurd (Or.inr (h.node hnodes hplannable)) hvisit
        · exact hmem node' hrest other hother hplannable hplannable' hjoins

variable (graph)

theorem isLeaf_initializeLeafPlans (cardinality : Nat → Nat) (stats : Nat → Stats)
    {mask : RelationSet} {node : JoinOrderDPJoinNode Cost}
    (h : (initializeLeafPlans (graph.enumerator (costModel Cost helper)) cardinality
      stats).plans mask = some node) : node.isLeaf = true := by
  have hloop : ∀ (relations : List Nat) (state : EnumeratorState Cost Stats),
      (∀ mask node, state.plans mask = some node → node.isLeaf = true) →
      ∀ mask node, (relations.foldl (fun (state : EnumeratorState Cost Stats) idx =>
        if idx ∉ (graph.enumerator (costModel Cost helper)).subsetMask then state
        else
          let set : RelationSet := {idx}
          let node : JoinOrderDPJoinNode Cost :=
            ⟨set, none, true, set, set,
              (graph.enumerator (costModel Cost helper)).model.zeroCost, cardinality idx⟩
          { state with
            plans := Function.update state.plans set (some node)
            dpStats := Function.update state.dpStats set (some (stats idx)) }) state).plans mask =
        some node → node.isLeaf = true := by
    intro relations
    induction relations with
    | nil => exact fun state hstate => hstate
    | cons idx rest ih =>
      intro state hstate
      rw [List.foldl_cons]
      refine ih _ fun mask node hnode => ?_
      split at hnode
      · exact hstate mask node hnode
      · dsimp only at hnode
        by_cases hmask : mask = {idx}
        · rw [hmask, Function.update_self, Option.some.injEq] at hnode
          rw [← hnode]
        · rw [Function.update_of_ne hmask] at hnode
          exact hstate mask node hnode
  refine hloop _ _ ?_ mask node h
  intro mask node hnode
  cases hnode

theorem explained_initializeLeafPlans (cardinality : Nat → Nat) (stats : Nat → Stats) :
    Explained graph.root []
      (initializeLeafPlans (graph.enumerator (costModel Cost helper)) cardinality
        stats) := by
  obtain ⟨-, hplans⟩ :=
    initializeLeafPlans_spec graph (costModel Cost helper) cardinality stats
  have hcard : ∀ mask, (initializeLeafPlans (graph.enumerator (costModel Cost helper))
      cardinality stats).plans mask ≠ none → mask.card = 1 := by
    intro mask hmask
    obtain ⟨r, -, rfl⟩ := (hplans mask).1 hmask
    exact Finset.card_singleton r
  refine ⟨fun mask node hnode => Or.inl ⟨?_, ?_⟩, fun mask node hnode hleaf => ?_, ?_⟩
  · exact isLeaf_initializeLeafPlans helper graph cardinality stats hnode
  · exact hcard mask (hnode ▸ Option.some_ne_none node)
  · rw [isLeaf_initializeLeafPlans helper graph cardinality stats hnode] at hleaf
    exact absurd hleaf (by decide)
  · exact fun mask hmask => Or.inl (hcard mask hmask).le

/-- **The dynamic program.** A run is the calls of `TryEmitPair` that it notes. In each of its
states every plan is explained by two recorded plans, costs never rise from a state to a later
one, and at the end the plan of a set beats every split of the set into two recorded, linked
sets, by the final plans and statistics of these. -/
theorem solveJoinOrderExactly_optimal (cardinality : Nat → Nat) (stats : Nat → Stats) :
    ∃ (final : EnumeratorState Cost Stats) (calls : List (RelationSet × RelationSet)),
      solveJoinOrderExactly (graph.enumerator (costModel Cost helper))
        (initializeLeafPlans (graph.enumerator (costModel Cost helper)) cardinality
          stats) = some final ∧
      final.emitted.map (fun pair => (pair.left, pair.right)) = calls ∧
      final ∈ runStates (costModel Cost helper) graph.root calls
        (initializeLeafPlans (graph.enumerator (costModel Cost helper)) cardinality stats) ∧
      (∀ state ∈ runStates (costModel Cost helper) graph.root calls
          (initializeLeafPlans (graph.enumerator (costModel Cost helper)) cardinality stats),
        ∀ mask node, state.plans mask = some node → ExplainedPlan graph.root state mask node) ∧
      (runStates (costModel Cost helper) graph.root calls
        (initializeLeafPlans (graph.enumerator (costModel Cost helper)) cardinality stats)).Pairwise
          Improves ∧
      ∀ left right, left.Nonempty → right.Nonempty → Disjoint left right →
        final.plans left ≠ none → final.plans right ≠ none →
        getConnections graph.root left right ≠ [] →
        lowestRelationIndex left < lowestRelationIndex right →
          Beats helper graph.root left right final := by
  obtain ⟨hemitted, hleaf⟩ :=
    initializeLeafPlans_spec graph (costModel Cost helper) cardinality stats
  have hstart : Planned graph []
      (initializeLeafPlans (graph.enumerator (costModel Cost helper)) cardinality
        stats) :=
    ⟨fun r hr => (hleaf {r}).2 ⟨r, hr, rfl⟩, fun node hnode => nomatch hnode⟩
  have hexplained := @explained_initializeLeafPlans Cost Stats _ _ _ _ helper graph cardinality stats
  obtain ⟨calls, hsub, hrun, hmem⟩ := foldl_visitNode_calls hstart (List.nil_append _).symm
  have hordered : Ordered ([] ++ calls) := pairwise_pairs.sublist hsub
  refine ⟨_, calls, solveJoinOrderExactly_eq _, ?_, ?_, ?_, (improves_run helper _ calls _).2, ?_⟩
  · have hsides := @BinaryQueryGraph.emittedSides_foldl Cost Stats (costModel Cost helper) graph.root
      calls (initializeLeafPlans (graph.enumerator (costModel Cost helper)) cardinality stats)
    rw [BinaryQueryGraph.emittedSides, BinaryQueryGraph.emittedSides, hemitted] at hsides
    rw [hrun]
    exact hsides
  · rw [hrun]
    exact emitPairs_mem_runStates helper _ _ _
  · exact fun state hstate => ((explained_run helper hexplained hordered).1 state hstate).plan
  · intro left right hleft hright hdisj hleftplan hrightplan hlinked hlt
    have hplannable : ∀ mask, (graph.nodes.foldl (visitNode graph (costModel Cost helper))
        (initializeLeafPlans (graph.enumerator (costModel Cost helper)) cardinality
          stats)).plans mask ≠ none → Plannable graph mask := by
      refine foldl_visitNode_sound fun mask hmask => ?_
      obtain ⟨r, hr, rfl⟩ := (hleaf mask).1 hmask
      exact .leaf hr
    have hl := hplannable left hleftplan
    have hr := hplannable right hrightplan
    have hjoins := getConnections_ne_nil_iff.1 hlinked
    have hother : right ∈ graph.others left := by
      obtain ⟨part, part', hpart, hpart', hparts⟩ := hjoins
      refine mem_others hr.spreading
        ((disjoint_excluded_iff hleft hright hr.subset).2 ⟨hdisj, hlt⟩) ?_
      exact ⟨lowestRelationIndex part', mem_neighbors.2 ⟨part, part', hpart, hparts, rfl⟩,
        hpart' (lowestRelationIndex_mem (linked_mem hparts).2.1).1⟩
    obtain ⟨before, after, rfl⟩ := List.append_of_mem
      (hmem left (mem_nodes hl.spreading hl.subset) right hother hl hr hjoins)
    rw [hrun] at hleftplan hrightplan ⊢
    exact beats_emitPairs helper hexplained hordered hleft hright hdisj hlinked
      ⟨hleftplan, hrightplan⟩

end QueryGraph

end JoinEnumeration
end PgYaap
