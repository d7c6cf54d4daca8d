import Mathlib
import PgYaap.JoinEnumerationRun

/-! # The exact join order search over binary edges

Where every edge joins two relations, the sets that a run comes to are the connected ones, all
of them plannable. So every visit is a call of `TryEmitPair`, and a run is the list of its
pairs (`solve_eq_pairs`). `solveJoinOrderExactly_enumerates` is what follows for the calls and
the plans. -/
namespace PgYaap
namespace JoinEnumeration

open LogicalPlan QueryGraphEdges ConnectedSubsets

variable {Cost Stats : Type}

/-- An edge of `Build` whose two sides are one relation each. -/
structure BinaryEdge where
  left : Nat
  right : Nat
  filterInfo : Option JoinOrderFilterInfo

/-- A set of relations and the edges between two of them. -/
structure BinaryQueryGraph where
  relationCount : Nat
  subsetMask : RelationSet
  subset_lt : ∀ r ∈ subsetMask, r < relationCount
  edges : List BinaryEdge
  edges_mem : ∀ edge ∈ edges, edge.left ∈ subsetMask ∧ edge.right ∈ subsetMask

namespace BinaryQueryGraph

variable (graph : BinaryQueryGraph) (model : JoinOrderCostModel Cost Stats)

/-- The graph that the enumerator is run on. -/
def toQueryGraph : QueryGraph where
  relationCount := graph.relationCount
  subsetMask := graph.subsetMask
  subset_lt := graph.subset_lt
  edges := graph.edges.map fun edge => ⟨{edge.left}, {edge.right}, edge.filterInfo⟩
  edges_mem edge hedge := by
    obtain ⟨binary, hbinary, rfl⟩ := List.mem_map.1 hedge
    obtain ⟨hleft, hright⟩ := graph.edges_mem binary hbinary
    exact ⟨⟨Finset.singleton_nonempty _, Finset.singleton_subset_iff.2 hleft⟩,
      Finset.singleton_nonempty _, Finset.singleton_subset_iff.2 hright⟩

/-- The relations that an edge joins to a relation. -/
def adjacent (r : Nat) : RelationSet :=
  graph.subsetMask.filter fun r' => ∃ edge ∈ graph.edges,
    (edge.left = r ∧ edge.right = r') ∨ (edge.right = r ∧ edge.left = r')

/-- A relation set of the search that is connected. -/
def ConnectedSet (mask : RelationSet) : Prop :=
  mask ⊆ graph.subsetMask ∧ Connected graph.adjacent mask

/-- An edge leads from one set into the other. -/
def LinkedSets (left right : RelationSet) : Prop := ∃ r ∈ left, ∃ r' ∈ right, r' ∈ graph.adjacent r

variable {graph model}

theorem mem_adjacent {r r' : Nat} : r' ∈ graph.adjacent r ↔ ∃ edge ∈ graph.edges,
    (edge.left = r ∧ edge.right = r') ∨ (edge.right = r ∧ edge.left = r') := by
  rw [adjacent, Finset.mem_filter]
  refine and_iff_right_of_imp ?_
  rintro ⟨edge, hedge, ⟨-, rfl⟩ | ⟨-, rfl⟩⟩
  · exact (graph.edges_mem edge hedge).2
  · exact (graph.edges_mem edge hedge).1

theorem adjacent_symm (r r' : Nat) (h : r' ∈ graph.adjacent r) : r ∈ graph.adjacent r' := by
  obtain ⟨edge, hedge, hends⟩ := mem_adjacent.1 h
  exact mem_adjacent.2 ⟨edge, hedge, hends.symm.imp And.symm And.symm⟩

theorem linkedSets_symm {left right : RelationSet} (h : graph.LinkedSets left right) :
    graph.LinkedSets right left := by
  obtain ⟨r, hr, r', hr', hadj⟩ := h
  exact ⟨r', hr', r, hr, adjacent_symm r r' hadj⟩

theorem linked_iff {left right : RelationSet} : Linked graph.toQueryGraph.edges left right ↔
    ∃ r r', left = {r} ∧ right = {r'} ∧ r' ∈ graph.adjacent r := by
  constructor
  · rintro ⟨_, hmem, hends⟩
    obtain ⟨edge, hedge, rfl⟩ := List.mem_map.1 hmem
    rcases hends with ⟨rfl, rfl⟩ | ⟨rfl, rfl⟩
    · exact ⟨edge.left, edge.right, rfl, rfl, mem_adjacent.2 ⟨edge, hedge, Or.inl ⟨rfl, rfl⟩⟩⟩
    · exact ⟨edge.right, edge.left, rfl, rfl, mem_adjacent.2 ⟨edge, hedge, Or.inr ⟨rfl, rfl⟩⟩⟩
  · rintro ⟨r, r', rfl, rfl, hadj⟩
    obtain ⟨edge, hedge, hends⟩ := mem_adjacent.1 hadj
    refine ⟨_, List.mem_map.2 ⟨edge, hedge, rfl⟩, ?_⟩
    rcases hends with ⟨rfl, rfl⟩ | ⟨rfl, rfl⟩
    · exact Or.inl ⟨rfl, rfl⟩
    · exact Or.inr ⟨rfl, rfl⟩

theorem lowestRelationIndex_singleton (r : Nat) : lowestRelationIndex {r} = r :=
  Finset.mem_singleton.1 (lowestRelationIndex_mem (Finset.singleton_nonempty r)).1

theorem neighbors_eq : graph.toQueryGraph.neighbors = neighborhood graph.adjacent := by
  funext node
  ext r'
  rw [QueryGraph.mem_neighbors, mem_neighborhood]
  constructor
  · rintro ⟨left, right, hsub, hlinked, hlow⟩
    obtain ⟨r, r'', rfl, rfl, hadj⟩ := linked_iff.1 hlinked
    rw [lowestRelationIndex_singleton] at hlow
    exact ⟨r, Finset.singleton_subset_iff.1 hsub, hlow ▸ hadj⟩
  · rintro ⟨r, hr, hadj⟩
    exact ⟨{r}, {r'}, Finset.singleton_subset_iff.2 hr, linked_iff.2 ⟨r, r', rfl, rfl, hadj⟩,
      lowestRelationIndex_singleton r'⟩

theorem joins_iff {left right : RelationSet} :
    graph.toQueryGraph.Joins left right ↔ graph.LinkedSets left right := by
  constructor
  · rintro ⟨part, part', hsub, hsub', hlinked⟩
    obtain ⟨r, r', rfl, rfl, hadj⟩ := linked_iff.1 hlinked
    exact ⟨r, Finset.singleton_subset_iff.1 hsub, r', Finset.singleton_subset_iff.1 hsub', hadj⟩
  · rintro ⟨r, hr, r', hr', hadj⟩
    exact ⟨{r}, {r'}, Finset.singleton_subset_iff.2 hr, Finset.singleton_subset_iff.2 hr',
      linked_iff.2 ⟨r, r', rfl, rfl, hadj⟩⟩

theorem spreading_iff {mask : RelationSet} :
    Spreading graph.toQueryGraph.neighbors mask ↔ Connected graph.adjacent mask := by
  rw [neighbors_eq]
  exact spreading_iff_connected adjacent_symm

/-! ## The members of the lists -/

theorem mem_nodes_iff {mask : RelationSet} :
    mask ∈ graph.toQueryGraph.nodes ↔ graph.ConnectedSet mask := by
  constructor
  · intro h
    obtain ⟨-, hsub, r, hgrow⟩ := QueryGraph.nodes_sound h
    rw [neighbors_eq] at hgrow
    exact ⟨hsub, hgrow.connected adjacent_symm⟩
  · rintro ⟨hsub, hconn⟩
    exact QueryGraph.mem_nodes (spreading_iff.2 hconn) hsub

theorem mem_others_iff {node other : RelationSet} : other ∈ graph.toQueryGraph.others node ↔
    graph.ConnectedSet other ∧ Disjoint other (graph.toQueryGraph.excluded node) ∧
      graph.LinkedSets node other := by
  constructor
  · intro h
    obtain ⟨-, hsub, hdisj, r, hr, hgrow⟩ := QueryGraph.others_sound h
    rw [neighbors_eq] at hr hgrow
    obtain ⟨r', hr', hadj⟩ := mem_neighborhood.1 hr
    exact ⟨⟨hsub, hgrow.connected adjacent_symm⟩, hdisj, r', hr', r,
      Finset.singleton_subset_iff.1 hgrow.1, hadj⟩
  · rintro ⟨⟨-, hconn⟩, hdisj, r, hr, r', hr', hadj⟩
    refine QueryGraph.mem_others (spreading_iff.2 hconn) hdisj ⟨r', ?_, hr'⟩
    rw [neighbors_eq]
    exact mem_neighborhood.2 ⟨r, hr, hadj⟩

theorem mem_pairs_iff {node other : RelationSet} : (node, other) ∈ graph.toQueryGraph.pairs ↔
    graph.ConnectedSet node ∧ graph.ConnectedSet other ∧ Disjoint node other ∧
      graph.LinkedSets node other ∧ lowestRelationIndex node < lowestRelationIndex other := by
  rw [QueryGraph.mem_pairs, mem_nodes_iff, mem_others_iff]
  constructor
  · rintro ⟨hnode, hother, hdisj, hlinked⟩
    obtain ⟨hdisj, hlt⟩ :=
      (QueryGraph.disjoint_excluded_iff hnode.2.1 hother.2.1 hother.1).1 hdisj
    exact ⟨hnode, hother, hdisj, hlinked, hlt⟩
  · rintro ⟨hnode, hother, hdisj, hlinked, hlt⟩
    exact ⟨hnode, hother,
      (QueryGraph.disjoint_excluded_iff hnode.2.1 hother.2.1 hother.1).2 ⟨hdisj, hlt⟩, hlinked⟩

/-- **Completeness**: of two disjoint linked connected sets, a run makes one pair. -/
theorem pair_mem_iff {left right : RelationSet} (hleft : graph.ConnectedSet left)
    (hright : graph.ConnectedSet right) (hdisj : Disjoint left right)
    (hlinked : graph.LinkedSets left right) :
    (left, right) ∈ graph.toQueryGraph.pairs ↔ (right, left) ∉ graph.toQueryGraph.pairs := by
  rw [mem_pairs_iff, mem_pairs_iff]
  have hne : lowestRelationIndex left ≠ lowestRelationIndex right := fun heq =>
    Finset.disjoint_left.1 hdisj (lowestRelationIndex_mem hleft.2.1).1
      (heq ▸ (lowestRelationIndex_mem hright.2.1).1)
  constructor
  · rintro ⟨-, -, -, -, hlt⟩ ⟨-, -, -, -, hlt'⟩
    exact lt_asymm hlt hlt'
  · intro hnot
    refine ⟨hleft, hright, hdisj, hlinked, lt_of_le_of_ne (Nat.not_lt.1 fun hlt => hnot ?_) hne⟩
    exact ⟨hright, hleft, hdisj.symm, linkedSets_symm hlinked, hlt⟩

/-- Every connected set can be planned, one relation after the other. -/
theorem plannable_of_connected {mask : RelationSet} (h : graph.ConnectedSet mask) :
    QueryGraph.Plannable graph.toQueryGraph mask := by
  induction mask using Finset.strongInduction with
  | H mask ih =>
    obtain ⟨r, hr⟩ := h.2.1
    by_cases hsingle : mask = {r}
    · subst hsingle
      exact .leaf (h.1 hr)
    · obtain ⟨part, r', hpart, -, hlt, hr', hadj, rfl⟩ := h.2.exists_last adjacent_symm hr hsingle
      obtain ⟨r'', hr'', hadj⟩ := mem_neighborhood.1 hadj
      have hleaf : QueryGraph.Plannable graph.toQueryGraph {r'} :=
        .leaf (h.1 (Finset.mem_insert_self r' part))
      have hjoins : graph.toQueryGraph.Joins part {r'} :=
        joins_iff.2 ⟨r'', hr'', r', Finset.mem_singleton_self r', hadj⟩
      have hunion := QueryGraph.Plannable.join (ih part hlt ⟨hlt.1.trans h.1, hpart⟩) hleaf
        (Finset.disjoint_singleton_right.2 hr') hjoins
      rwa [Finset.union_comm] at hunion

/-! ## A run is its pairs -/

/-- The visits of one node are calls of `TryEmitPair` when its other sides are planned. -/
theorem foldl_visitOther_eq {node : RelationSet} {others : List RelationSet}
    {state : EnumeratorState Cost Stats}
    (h : ∀ other ∈ others, state.plans other ≠ none ∧ graph.LinkedSets node other) :
    others.foldl (QueryGraph.visitOther graph.toQueryGraph model node) state =
      (others.map fun other => (node, other)).foldl
        (fun s pair => tryEmitPair model graph.toQueryGraph.root pair.1 pair.2 s) state := by
  induction others generalizing state with
  | nil => rfl
  | cons other rest ih =>
    obtain ⟨hplanned, hlinked⟩ := h other List.mem_cons_self
    have hconn := QueryGraph.getConnections_ne_nil_iff.2 (joins_iff.2 hlinked)
    rw [List.foldl_cons, List.map_cons, List.foldl_cons, QueryGraph.visitOther,
      if_pos ⟨Or.inr hplanned, hconn⟩]
    refine ih fun other' hother' => ?_
    obtain ⟨hplanned', hlinked'⟩ := h other' (List.mem_cons_of_mem other hother')
    exact ⟨tryEmitPair_keeps _ _ _ _ _ hplanned', hlinked'⟩

theorem foldl_visitNode_eq {done rest : List RelationSet} {state : EnumeratorState Cost Stats}
    (h : QueryGraph.Planned graph.toQueryGraph done state)
    (hnodes : graph.toQueryGraph.nodes = done ++ rest) :
    rest.foldl (QueryGraph.visitNode graph.toQueryGraph model) state =
      (rest.flatMap fun node => (graph.toQueryGraph.others node).map fun other =>
        (node, other)).foldl
        (fun s pair => tryEmitPair model graph.toQueryGraph.root pair.1 pair.2 s) state := by
  induction rest generalizing done state with
  | nil => rfl
  | cons node rest ih =>
    have hnode := mem_nodes_iff.1 (hnodes ▸ List.mem_append_right _ List.mem_cons_self)
    have hvisit : QueryGraph.visitNode graph.toQueryGraph model state node =
        ((graph.toQueryGraph.others node).map fun other => (node, other)).foldl
          (fun s pair => tryEmitPair model graph.toQueryGraph.root pair.1 pair.2 s) state := by
      rw [QueryGraph.visitNode, if_pos (Or.inr (h.node hnodes (plannable_of_connected hnode)))]
      refine foldl_visitOther_eq fun other hother => ?_
      obtain ⟨hconn, -, hlinked⟩ := mem_others_iff.1 hother
      exact ⟨h.other hnodes hother (plannable_of_connected hconn), hlinked⟩
    rw [List.foldl_cons, List.flatMap_cons, List.foldl_append, ← hvisit]
    refine ih (h.step hnodes) ?_
    rw [hnodes, List.append_assoc, List.singleton_append]

/-! ## The plans of a run -/

/-- The sides of the calls of `TryEmitPair`. -/
def emittedSides (state : EnumeratorState Cost Stats) : List (RelationSet × RelationSet) :=
  state.emitted.map fun pair => (pair.left, pair.right)

theorem emittedSides_foldl (root : QueryEdge) (pairs : List (RelationSet × RelationSet))
    (state : EnumeratorState Cost Stats) :
    emittedSides (pairs.foldl (fun s pair => tryEmitPair model root pair.1 pair.2 s) state) =
      emittedSides state ++ pairs := by
  induction pairs generalizing state with
  | nil => exact (List.append_nil _).symm
  | cons pair rest ih =>
    rw [List.foldl_cons, ih, emittedSides, tryEmitPair_emitted, List.map_append, List.append_assoc]
    rfl

/-- The plans that the calls so far have looked up are the recorded ones. -/
def PlansKept (state : EnumeratorState Cost Stats) : Prop :=
  ∀ pair ∈ state.emitted, state.plans pair.left = pair.leftState ∧
    state.plans pair.right = pair.rightState

/-- Calls whose unions no earlier call has used keep the plans that were looked up. -/
theorem plansKept_foldl (root : QueryEdge) {pairs : List (RelationSet × RelationSet)}
    {state : EnumeratorState Cost Stats} (h : PlansKept state)
    (hpairs : pairs.Pairwise fun pair later =>
      later.1 ∪ later.2 ≠ pair.1 ∧ later.1 ∪ later.2 ≠ pair.2)
    (hold : ∀ old ∈ state.emitted, ∀ pair ∈ pairs,
      pair.1 ∪ pair.2 ≠ old.left ∧ pair.1 ∪ pair.2 ≠ old.right) :
    PlansKept (pairs.foldl (fun s pair => tryEmitPair model root pair.1 pair.2 s) state) := by
  induction pairs generalizing state with
  | nil => exact h
  | cons pair rest ih =>
    obtain ⟨hpair, hrest⟩ := List.pairwise_cons.1 hpairs
    obtain ⟨hleft, hright⟩ := tryEmitPair_plans_sides model root pair.1 pair.2 state
    refine ih ?_ hrest ?_
    · intro old hold'
      rw [tryEmitPair_emitted] at hold'
      rcases List.mem_append.1 hold' with hmem | hlast
      · obtain ⟨hneleft, hneright⟩ := hold old hmem pair List.mem_cons_self
        rw [tryEmitPair_plans_of_ne _ _ _ _ _ fun _ _ _ => hneleft.symm,
          tryEmitPair_plans_of_ne _ _ _ _ _ fun _ _ _ => hneright.symm]
        exact h old hmem
      · rw [List.mem_singleton.1 hlast]
        exact ⟨hleft, hright⟩
    · intro old hold' later hlater
      rw [tryEmitPair_emitted] at hold'
      rcases List.mem_append.1 hold' with hmem | hlast
      · exact hold old hmem later (List.mem_cons_of_mem pair hlater)
      · rw [List.mem_singleton.1 hlast]
        exact hpair later hlater

variable (graph model)

/-- **A run is its pairs**: the search succeeds and calls `TryEmitPair` for them in order. -/
theorem solve_eq_pairs (cardinality : Nat → Nat) (stats : Nat → Stats) :
    solveJoinOrderExactly (graph.toQueryGraph.enumerator model)
        (initializeLeafPlans (graph.toQueryGraph.enumerator model) cardinality stats) =
      some (graph.toQueryGraph.pairs.foldl
        (fun s pair => tryEmitPair model graph.toQueryGraph.root pair.1 pair.2 s)
        (initializeLeafPlans (graph.toQueryGraph.enumerator model) cardinality stats)) := by
  obtain ⟨-, hleaf⟩ := QueryGraph.initializeLeafPlans_spec graph.toQueryGraph model cardinality stats
  rw [QueryGraph.solveJoinOrderExactly_eq]
  have hstart : QueryGraph.Planned graph.toQueryGraph []
      (initializeLeafPlans (graph.toQueryGraph.enumerator model) cardinality stats) :=
    ⟨fun r hr => (hleaf {r}).2 ⟨r, hr, rfl⟩, fun node hnode => nomatch hnode⟩
  exact congrArg some (foldl_visitNode_eq hstart rfl)

/-- **The exact search** calls `TryEmitPair` for the disjoint linked connected sets, each pair
once and in one orientation, and only after every pair whose union is one of its sides; the
plans it looks up are those that stay recorded. -/
theorem solveJoinOrderExactly_enumerates (cardinality : Nat → Nat) (stats : Nat → Stats) :
    ∃ final, solveJoinOrderExactly (graph.toQueryGraph.enumerator model)
        (initializeLeafPlans (graph.toQueryGraph.enumerator model) cardinality stats) =
          some final ∧
      (∀ left right, graph.ConnectedSet left → graph.ConnectedSet right → Disjoint left right →
        graph.LinkedSets left right →
        ((left, right) ∈ emittedSides final ↔ (right, left) ∉ emittedSides final)) ∧
      (emittedSides final).Nodup ∧
      (∀ pair ∈ emittedSides final, graph.ConnectedSet pair.1 ∧ graph.ConnectedSet pair.2 ∧
        Disjoint pair.1 pair.2 ∧ graph.LinkedSets pair.1 pair.2) ∧
      ((emittedSides final).Pairwise fun pair later =>
        later.1 ∪ later.2 ≠ pair.1 ∧ later.1 ∪ later.2 ≠ pair.2) ∧
      ∀ pair ∈ final.emitted, pair.leftState ≠ none ∧ pair.rightState ≠ none ∧
        final.plans pair.left = pair.leftState ∧ final.plans pair.right = pair.rightState := by
  obtain ⟨hemitted, -⟩ :=
    QueryGraph.initializeLeafPlans_spec graph.toQueryGraph model cardinality stats
  obtain ⟨final, hrun, hplanned⟩ := QueryGraph.plans_solve_iff graph.toQueryGraph model
    cardinality stats
  have hfinal : final = _ :=
    Option.some.inj (hrun.symm.trans (solve_eq_pairs graph model cardinality stats))
  have hsides : emittedSides final = graph.toQueryGraph.pairs := by
    rw [hfinal, emittedSides_foldl, emittedSides, hemitted]
    rfl
  have hkept : PlansKept final := by
    rw [hfinal]
    refine plansKept_foldl _ ?_ QueryGraph.pairwise_pairs ?_
    · intro pair hpair
      rw [hemitted] at hpair
      exact nomatch hpair
    · intro old hold
      rw [hemitted] at hold
      exact nomatch hold
  refine ⟨final, hrun, ?_, hsides ▸ QueryGraph.nodup_pairs, ?_, hsides ▸ QueryGraph.pairwise_pairs,
    ?_⟩
  · intro left right hleft hright hdisj hlinked
    rw [hsides]
    exact pair_mem_iff hleft hright hdisj hlinked
  · rw [hsides]
    rintro ⟨left, right⟩ hpair
    obtain ⟨hleft, hright, hdisj, hlinked, -⟩ := mem_pairs_iff.1 hpair
    exact ⟨hleft, hright, hdisj, hlinked⟩
  · intro pair hpair
    obtain ⟨hleft, hright⟩ := hkept pair hpair
    have hmem : (pair.left, pair.right) ∈ graph.toQueryGraph.pairs :=
      hsides ▸ List.mem_map.2 ⟨pair, hpair, rfl⟩
    obtain ⟨hconn, hconn', -⟩ := mem_pairs_iff.1 hmem
    exact ⟨hleft ▸ (hplanned _).2 (plannable_of_connected hconn),
      hright ▸ (hplanned _).2 (plannable_of_connected hconn'), hleft, hright⟩

end BinaryQueryGraph

end JoinEnumeration
end PgYaap
