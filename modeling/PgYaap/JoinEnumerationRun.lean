import Mathlib
import PgYaap.JoinEnumerationOrder

/-! # Runs of the exact join order search

`solveJoinOrderExactly_eq` reduces a run to the visits of `nodes` and `others`. A set is
`Plannable` when it can be put together from single relations along the edges;
`plans_solve_iff` says that a run plans exactly these sets. Each is planned by the time it is
looked up, as the pairs that make it up come earlier. -/
namespace PgYaap
namespace JoinEnumeration

open LogicalPlan QueryGraphEdges ConnectedSubsets

variable {Cost Stats : Type}

/-! ## What a call of `TryEmitPair` changes -/

section Recording

variable (model : JoinOrderCostModel Cost Stats) (root : QueryEdge) (left right : RelationSet)
  (connections : List JoinOrderNeighborInfo) (state : EnumeratorState Cost Stats)

@[simp] theorem tryRecord_emitted :
    (tryRecord model left right connections state).emitted = state.emitted := by
  rw [tryRecord]
  split
  · rfl
  · rfl

theorem tryRecord_plans_of_ne {mask : RelationSet} (h : mask ≠ left ∪ right) :
    (tryRecord model left right connections state).plans mask = state.plans mask := by
  rw [tryRecord]
  split
  · exact Function.update_of_ne h _ _
  · rfl

theorem tryRecord_planned : (tryRecord model left right connections state).plans (left ∪ right) ≠
    none := by
  rw [tryRecord]
  split
  · change Function.update state.plans (left ∪ right) _ (left ∪ right) ≠ none
    rw [Function.update_self]
    exact Option.some_ne_none _
  · rename_i hreplace
    intro hnone
    rw [hnone] at hreplace
    exact hreplace rfl

/-- What `TryEmitPair` can record: nothing, the pair, or the pair and then its reverse. -/
theorem recordPair_cases : recordPair model root left right state = state ∨
    ((left.Nonempty ∧ right.Nonempty ∧ Disjoint left right) ∧
      (state.plans left ≠ none ∧ state.plans right ≠ none) ∧ getConnections root left right ≠ [] ∧
      ∃ connections,
        recordPair model root left right state = tryRecord model left right connections state ∨
        ∃ reverseConnections, recordPair model root left right state =
          tryRecord model right left reverseConnections
            (tryRecord model left right connections state)) := by
  rw [recordPair]
  by_cases hsides : left = ∅ ∨ right = ∅ ∨ left ∩ right ≠ ∅
  · exact Or.inl (if_pos hsides)
  · rw [if_neg hsides]
    rw [not_or, not_or, ← ne_eq, ← ne_eq, not_not, ← Finset.nonempty_iff_ne_empty,
      ← Finset.nonempty_iff_ne_empty, ← Finset.disjoint_iff_inter_eq_empty] at hsides
    dsimp only
    split
    · exact Or.inl rfl
    · rename_i hplanned
      split
      · exact Or.inl rfl
      · rename_i hconn
        refine Or.inr ⟨hsides, not_or.1 hplanned, hconn, getConnections root left right, ?_⟩
        split
        · split
          · exact Or.inl rfl
          · exact Or.inr ⟨_, rfl⟩
        · exact Or.inl rfl

@[simp] theorem recordPair_emitted :
    (recordPair model root left right state).emitted = state.emitted := by
  rcases recordPair_cases model root left right state with
    heq | ⟨-, -, -, connections, heq | ⟨reverseConnections, heq⟩⟩
  · rw [heq]
  · rw [heq, tryRecord_emitted]
  · rw [heq, tryRecord_emitted, tryRecord_emitted]

/-- Only the plan of the union is recorded, and only for two disjoint nonempty sides. -/
theorem recordPair_plans_of_ne {mask : RelationSet}
    (h : left.Nonempty → right.Nonempty → Disjoint left right → mask ≠ left ∪ right) :
    (recordPair model root left right state).plans mask = state.plans mask := by
  rcases recordPair_cases model root left right state with
    heq | ⟨⟨hleft, hright, hdisj⟩, -, -, connections, heq | ⟨reverseConnections, heq⟩⟩
  · rw [heq]
  · rw [heq, tryRecord_plans_of_ne _ _ _ _ _ (h hleft hright hdisj)]
  · have hne := h hleft hright hdisj
    rw [heq, tryRecord_plans_of_ne _ _ _ _ _ (Finset.union_comm left right ▸ hne),
      tryRecord_plans_of_ne _ _ _ _ _ hne]

theorem recordPair_planned (hleft : left.Nonempty) (hright : right.Nonempty)
    (hdisj : Disjoint left right) (hplanned : state.plans left ≠ none ∧ state.plans right ≠ none)
    (hconn : getConnections root left right ≠ []) :
    (recordPair model root left right state).plans (left ∪ right) ≠ none := by
  rw [recordPair, if_neg, if_neg (not_or.2 hplanned), if_neg hconn]
  · dsimp only
    split
    · split
      · exact tryRecord_planned model left right _ state
      · rw [Finset.union_comm]
        exact tryRecord_planned model right left _ _
    · exact tryRecord_planned model left right _ state
  · rw [not_or, not_or, not_not, ← Finset.disjoint_iff_inter_eq_empty]
    exact ⟨hleft.ne_empty, hright.ne_empty, hdisj⟩

theorem tryEmitPair_emitted : (tryEmitPair model root left right state).emitted =
    state.emitted ++ [⟨left, right, state.plans left, state.plans right⟩] := by
  rw [tryEmitPair, recordPair_emitted]

theorem tryEmitPair_plans_of_ne {mask : RelationSet}
    (h : left.Nonempty → right.Nonempty → Disjoint left right → mask ≠ left ∪ right) :
    (tryEmitPair model root left right state).plans mask = state.plans mask := by
  rw [tryEmitPair, recordPair_plans_of_ne _ _ _ _ _ h]

/-- A call leaves the plans of its own two sides alone. -/
theorem tryEmitPair_plans_sides :
    (tryEmitPair model root left right state).plans left = state.plans left ∧
      (tryEmitPair model root left right state).plans right = state.plans right := by
  constructor
  · refine tryEmitPair_plans_of_ne _ _ _ _ _ fun _ hright hdisj heq => ?_
    obtain ⟨r, hr⟩ := hright
    exact Finset.disjoint_left.1 hdisj (heq ▸ Finset.mem_union_right left hr) hr
  · refine tryEmitPair_plans_of_ne _ _ _ _ _ fun hleft _ hdisj heq => ?_
    obtain ⟨r, hr⟩ := hleft
    exact Finset.disjoint_left.1 hdisj hr (heq ▸ Finset.mem_union_left right hr)

theorem tryRecord_keeps {mask : RelationSet} (h : state.plans mask ≠ none) :
    (tryRecord model left right connections state).plans mask ≠ none := by
  by_cases hmask : mask = left ∪ right
  · exact hmask ▸ tryRecord_planned model left right connections state
  · rwa [tryRecord_plans_of_ne _ _ _ _ _ hmask]

/-- A plan that is recorded stays recorded. -/
theorem tryEmitPair_keeps {mask : RelationSet} (h : state.plans mask ≠ none) :
    (tryEmitPair model root left right state).plans mask ≠ none := by
  rw [tryEmitPair]
  rcases recordPair_cases model root left right _ with
    heq | ⟨-, -, -, connections, heq | ⟨reverseConnections, heq⟩⟩
  · rw [heq]
    exact h
  · rw [heq]
    exact tryRecord_keeps _ _ _ _ _ h
  · rw [heq]
    exact tryRecord_keeps _ _ _ _ _ (tryRecord_keeps _ _ _ _ _ h)

end Recording

/-! ## The routines as visits -/

namespace QueryGraph

variable (graph : QueryGraph) (model : JoinOrderCostModel Cost Stats)

/-- One other side of a node: a single relation is not looked up first. -/
def visitOther (node : RelationSet) (state : EnumeratorState Cost Stats) (other : RelationSet) :
    EnumeratorState Cost Stats :=
  if (other.card = 1 ∨ state.plans other ≠ none) ∧ getConnections graph.root node other ≠ [] then
    tryEmitPair model graph.root node other state
  else state

/-- `EmitCSG` as visits. -/
def emitAll (node : RelationSet) (state : EnumeratorState Cost Stats) :
    EnumeratorState Cost Stats :=
  (graph.others node).foldl (visitOther graph model node) state

/-- One node: a single relation is not looked up first. -/
def visitNode (state : EnumeratorState Cost Stats) (node : RelationSet) :
    EnumeratorState Cost Stats :=
  if node.card = 1 ∨ state.plans node ≠ none then emitAll graph model node state else state

variable {graph model}

theorem relationIndexes_eq_nil {mask : RelationSet} : relationIndexes mask = [] ↔ mask = ∅ := by
  rw [List.eq_nil_iff_forall_not_mem, Finset.eq_empty_iff_forall_notMem]
  exact forall_congr' fun r => not_congr mem_relationIndexes

theorem maskFromRelations_relationIndexes (mask : RelationSet) :
    maskFromRelations (relationIndexes mask) = mask := by
  ext r
  rw [maskFromRelations, List.mem_toFinset, mem_relationIndexes]

theorem lowerRelationsMask_eq (upperBound : Nat) :
    lowerRelationsMask (graph.enumerator model) upperBound =
      graph.subsetMask.filter (· < upperBound) := by
  ext r
  rw [lowerRelationsMask, Finset.mem_filter, Finset.mem_filter, Finset.mem_range, and_comm]
  rfl

/-- What a round adds to a set is new, and the sum is no single relation. -/
theorem union_of_mem_sets {node exclusion subset : RelationSet} (hnode : node.Nonempty)
    (hX : node ⊆ exclusion) (h : subset ∈ graph.listing.sets (graph.neighbors node \ exclusion)) :
    node ∪ subset ≠ node ∧ (node ∪ subset).card ≠ 1 ∧ subset ⊆ graph.subsetMask := by
  obtain ⟨hsub, r, hr⟩ :=
    (graph.listing.mem_sets _ (sdiff_subset_universe neighbors_subset) _).1 h
  have hlt : node ⊂ node ∪ subset := by
    refine Finset.ssubset_iff_of_subset Finset.subset_union_left |>.2
      ⟨r, Finset.mem_union_right node hr, fun hmem => ?_⟩
    exact (Finset.mem_sdiff.1 (hsub hr)).2 (hX hmem)
  have hcard := Finset.card_lt_card hlt
  have hpos := Finset.card_pos.2 hnode
  exact ⟨hlt.ne', by omega, hsub.trans (sdiff_subset_universe neighbors_subset)⟩

theorem card_sdiff_lt_fuel (exclusion : RelationSet) :
    (graph.subsetMask \ exclusion).card < graph.relationCount + 1 :=
  Nat.lt_succ_of_le ((Finset.card_le_card Finset.sdiff_subset).trans card_subsetMask_le)

/-- A loop whose steps all succeed. -/
theorem foldlM_eq_foldl {σ β γ : Type} {l : List β} {f : σ → β → Option σ} {g : σ → γ → σ}
    {h : β → γ} (hstep : ∀ state, ∀ x ∈ l, f state x = some (g state (h x))) (state : σ) :
    l.foldlM f state = some ((l.map h).foldl g state) := by
  induction l generalizing state with
  | nil => rfl
  | cons x rest ih =>
    rw [List.foldlM_cons, hstep state x List.mem_cons_self]
    exact ih (fun s y hy => hstep s y (List.mem_cons_of_mem x hy)) _

variable (model) in
theorem enumerateCmp_eq (left : RelationSet) {right exclusion : RelationSet}
    (hright : right.Nonempty)
    (hsub : right ⊆ graph.subsetMask) (hX : right ⊆ exclusion)
    (state : EnumeratorState Cost Stats) :
    enumerateCmp (graph.enumerator model) (graph.relationCount + 1) left right exclusion state =
      some ((grow graph.neighbors graph.listing (graph.relationCount + 1) right exclusion).foldl
        (visitOther graph model left) state) := by
  refine routine_eq_foldl (visitOther graph model left)
    (fun fuel right exclusion => enumerateCmp (graph.enumerator model) fuel left right exclusion)
    neighbors_subset ?_ state (card_sdiff_lt_fuel exclusion) hright hsub hX
  intro fuel right exclusion state hright _ hX
  have hneighbors : getNeighbors (graph.enumerator model).queryGraph right exclusion =
      relationIndexes (graph.neighbors right \ exclusion) := getNeighbors_eq right exclusion
  rw [enumerateCmp, hneighbors, maskFromRelations_relationIndexes]
  simp only [relationIndexes_eq_nil]
  refine if_congr Iff.rfl rfl ?_
  have hvisits := foldlM_eq_foldl (fun s subset hmem => ?_) state (l := graph.listing.sets
    (graph.neighbors right \ exclusion)) (f := fun s subset =>
      visitCmp (graph.enumerator model) left right subset s) (g := visitOther graph model left)
    (h := (right ∪ ·))
  · exact congrArg (Option.bind · _) hvisits
  · obtain ⟨hne, hcard, -⟩ := union_of_mem_sets hright hX hmem
    rw [visitCmp, if_neg hne, visitOther]
    simp only [hcard, false_or]
    exact (apply_ite some _ _ _).symm

theorem erase_seed {exclusion : RelationSet} {seed : Nat} {rest : List Nat}
    (hX : seed ∉ exclusion) (hrest : seed ∉ rest) :
    (exclusion ∪ (seed :: rest).toFinset).erase seed = exclusion ∪ rest.toFinset := by
  rw [List.toFinset_cons, Finset.union_insert, Finset.erase_insert]
  rw [Finset.mem_union, List.mem_toFinset, not_or]
  exact ⟨hX, hrest⟩

theorem emitNeighbors_eq {node exclusion : RelationSet} {seeds : List Nat}
    (hX : ∀ v ∈ seeds, v ∉ exclusion) (hsub : ∀ v ∈ seeds, v ∈ graph.subsetMask)
    (hnodup : seeds.Nodup) (state : EnumeratorState Cost Stats) :
    emitNeighbors (graph.enumerator model) node seeds (exclusion ∪ seeds.toFinset) state =
      some ((growSeeds graph.neighbors graph.listing (graph.relationCount + 1) exclusion
        seeds).foldl (visitOther graph model node) state) := by
  induction seeds generalizing state with
  | nil => rfl
  | cons seed rest ih =>
    obtain ⟨hseed, hnodup⟩ := List.nodup_cons.1 hnodup
    have hsingle : (if getConnections (graph.enumerator model).queryGraph node {seed} ≠ [] then
        tryEmitPair (graph.enumerator model).model (graph.enumerator model).queryGraph node {seed}
          state else state) = visitOther graph model node state {seed} := by
      rw [visitOther]
      simp only [Finset.card_singleton, true_or, true_and]
      rfl
    have hin : {seed} ⊆ exclusion ∪ (seed :: rest).toFinset := seed_subset
    have hcmp := enumerateCmp_eq model node (Finset.singleton_nonempty seed)
      (Finset.singleton_subset_iff.2 (hsub seed List.mem_cons_self)) hin
      (visitOther graph model node state {seed})
    rw [emitNeighbors, hsingle, growSeeds, List.foldl_append, List.foldl_cons]
    refine (congrArg (Option.bind · _) hcmp).trans ?_
    rw [Option.bind_some, erase_seed (hX seed List.mem_cons_self) hseed]
    exact ih (fun v hv => hX v (List.mem_cons_of_mem seed hv))
      (fun v hv => hsub v (List.mem_cons_of_mem seed hv)) hnodup _

/-- **One node**: `EmitCSG` visits the other sides of the node. -/
theorem emitCSG_eq {node : RelationSet} (hsub : node ⊆ graph.subsetMask)
    (state : EnumeratorState Cost Stats) :
    emitCSG (graph.enumerator model) node state = some (emitAll graph model node state) := by
  rw [emitCSG]
  split
  · rename_i hcard
    have hall : node = graph.subsetMask := Finset.eq_of_subset_of_card_le hsub hcard.ge
    have hnil : graph.others node = [] := by
      refine List.eq_nil_iff_forall_not_mem.2 fun other hother => ?_
      obtain ⟨⟨r, hr⟩, hsub', hdisj, -⟩ := others_sound hother
      exact Finset.disjoint_left.1 hdisj hr (Finset.mem_union_right _ (hall ▸ hsub' hr))
    rw [emitAll, hnil]
    rfl
  · have hexcluded : lowerRelationsMask (graph.enumerator model) (lowestRelationIndex node) ∪ node =
        graph.excluded node := by
      rw [lowerRelationsMask_eq]
      rfl
    have hneighbors : getNeighbors (graph.enumerator model).queryGraph node (graph.excluded node) =
        relationIndexes (graph.neighbors node \ graph.excluded node) := getNeighbors_eq _ _
    dsimp only
    rw [hexcluded, hneighbors]
    split
    · rename_i hempty
      rw [emitAll, others, otherSeeds, hempty]
      rfl
    · exact emitNeighbors_eq notMem_excluded_of_otherSeeds
        (fun v hv => neighbors_subset node (mem_otherSeeds.1 hv).1) (nodup_otherSeeds node) state

variable (model) in
theorem enumerateCSGRecursive_eq {node exclusion : RelationSet} (hnode : node.Nonempty)
    (hsub : node ⊆ graph.subsetMask) (hX : node ⊆ exclusion)
    (state : EnumeratorState Cost Stats) :
    enumerateCSGRecursive (graph.enumerator model) (graph.relationCount + 1) node exclusion state =
      some ((grow graph.neighbors graph.listing (graph.relationCount + 1) node exclusion).foldl
        (visitNode graph model) state) := by
  refine routine_eq_foldl (visitNode graph model)
    (fun fuel node exclusion => enumerateCSGRecursive (graph.enumerator model) fuel node exclusion)
    neighbors_subset ?_ state (card_sdiff_lt_fuel exclusion) hnode hsub hX
  intro fuel node exclusion state hnode hsub hX
  have hneighbors : getNeighbors (graph.enumerator model).queryGraph node exclusion =
      relationIndexes (graph.neighbors node \ exclusion) := getNeighbors_eq node exclusion
  rw [enumerateCSGRecursive, hneighbors, maskFromRelations_relationIndexes]
  simp only [relationIndexes_eq_nil]
  refine if_congr Iff.rfl rfl ?_
  have hvisits := foldlM_eq_foldl (fun s subset hmem => ?_) state (l := graph.listing.sets
    (graph.neighbors node \ exclusion)) (f := fun s subset =>
      visitCSG (graph.enumerator model) node subset s) (g := visitNode graph model)
    (h := (node ∪ ·))
  · exact congrArg (Option.bind · _) hvisits
  · obtain ⟨hne, hcard, hsubset⟩ := union_of_mem_sets hnode hX hmem
    rw [visitCSG, if_neg hne, visitNode, emitCSG_eq (Finset.union_subset hsub hsubset)]
    simp only [hcard, false_or]
    exact (apply_ite some _ _ _).symm

theorem solveFrom_eq (idx : Nat) (state : EnumeratorState Cost Stats) :
    solveFrom (graph.enumerator model) idx state =
      some ((growSeeds graph.neighbors graph.listing (graph.relationCount + 1) ∅
        ((List.range idx).filter (· ∈ graph.subsetMask)).reverse).foldl
        (visitNode graph model) state) := by
  induction idx generalizing state with
  | zero => rfl
  | succ idx ih =>
    rw [List.range_succ, List.filter_append, List.reverse_append, solveFrom]
    by_cases hidx : idx ∈ graph.subsetMask
    · have hfilter : ([idx].filter (· ∈ graph.subsetMask)).reverse = [idx] := by
        rw [List.filter_cons_of_pos (by simpa using hidx)]
        rfl
      have hmask : lowerRelationsMask (graph.enumerator model) (idx + 1) = ∅ ∪
          (idx :: ((List.range idx).filter (· ∈ graph.subsetMask)).reverse).toFinset := by
        ext r
        rw [lowerRelationsMask_eq, Finset.empty_union, List.mem_toFinset, Finset.mem_filter,
          List.mem_cons, List.mem_reverse, List.mem_filter, List.mem_range, decide_eq_true_iff]
        constructor
        · rintro ⟨hr, hlt⟩
          by_cases heq : r = idx
          · exact Or.inl heq
          · exact Or.inr ⟨by omega, hr⟩
        · rintro (rfl | ⟨hlt, hr⟩)
          · exact ⟨hidx, Nat.lt_succ_self r⟩
          · exact ⟨hr, by omega⟩
      have hsub : {idx} ⊆ graph.subsetMask := Finset.singleton_subset_iff.2 hidx
      have hin : {idx} ⊆ lowerRelationsMask (graph.enumerator model) (idx + 1) := by
        rw [hmask]
        exact seed_subset
      have hseed : visitNode graph model state {idx} = emitAll graph model {idx} state :=
        if_pos (Or.inl (Finset.card_singleton idx))
      have hgrow := enumerateCSGRecursive_eq model (Finset.singleton_nonempty idx) hsub hin
        (emitAll graph model {idx} state)
      rw [if_neg (show ¬ idx ∉ (graph.enumerator model).subsetMask from not_not.2 hidx), hfilter,
        List.singleton_append, growSeeds, List.foldl_append, List.foldl_cons, ← hmask, hseed]
      dsimp only
      rw [emitCSG_eq hsub]
      exact (congrArg (Option.bind · _) hgrow).trans (ih _)
    · have hfilter : ([idx].filter (· ∈ graph.subsetMask)).reverse = [] := by
        rw [List.filter_cons_of_neg (by simpa using hidx)]
        rfl
      rw [if_pos (show idx ∉ (graph.enumerator model).subsetMask from hidx), hfilter,
        List.nil_append]
      exact ih state

/-- **A run is its visits**: the search succeeds, and visits the nodes in order. -/
theorem solveJoinOrderExactly_eq (state : EnumeratorState Cost Stats) :
    solveJoinOrderExactly (graph.enumerator model) state =
      some (graph.nodes.foldl (visitNode graph model) state) :=
  solveFrom_eq graph.relationCount state

/-! ## What a run plans -/

/-- What single relations and the edges between them can be put together to. -/
inductive Plannable (graph : QueryGraph) : RelationSet → Prop
  | leaf {r : Nat} (hr : r ∈ graph.subsetMask) : Plannable graph {r}
  | join {left right : RelationSet} (hleft : Plannable graph left)
      (hright : Plannable graph right) (hdisj : Disjoint left right)
      (hjoins : graph.Joins left right) : Plannable graph (left ∪ right)

/-- Whatever part of a plannable set one starts from, an edge leads on within the set. -/
theorem Plannable.exists_neighbor {mask : RelationSet} (h : Plannable graph mask)
    {part : RelationSet} (hne : part.Nonempty) (hlt : part ⊂ mask) :
    ∃ r ∈ mask, r ∉ part ∧ r ∈ graph.neighbors part := by
  induction h generalizing part with
  | leaf hr =>
    have hcard := Finset.card_lt_card hlt
    have hpos := Finset.card_pos.2 hne
    rw [Finset.card_singleton] at hcard
    exact absurd hpos (by omega)
  | @join left right hleft hright hdisj hjoins ihleft ihright =>
    -- a part of one side leads on within the side
    have hside : ∀ side ⊆ left ∪ right, (∀ {part : RelationSet}, part.Nonempty → part ⊂ side →
        ∃ r ∈ side, r ∉ part ∧ r ∈ graph.neighbors part) → (part ∩ side).Nonempty →
        ¬ side ⊆ part → ∃ r ∈ left ∪ right, r ∉ part ∧ r ∈ graph.neighbors part := by
      intro side hside ih hmeets hnot
      have hless : part ∩ side ⊂ side := Finset.inter_subset_right.ssubset_of_ne fun heq =>
        hnot (heq ▸ Finset.inter_subset_left)
      obtain ⟨r, hr, hrnot, hneighbor⟩ := ih hmeets hless
      refine ⟨r, hside hr, fun hrpart => hrnot (Finset.mem_inter.2 ⟨hrpart, hr⟩), ?_⟩
      exact neighbors_mono Finset.inter_subset_left hneighbor
    -- a whole side leads to the other one
    have hacross : ∀ side other, other ⊆ left ∪ right → graph.Joins side other → side ⊆ part →
        Disjoint part other → ∃ r ∈ left ∪ right, r ∉ part ∧ r ∈ graph.neighbors part := by
      rintro side other hother ⟨piece, target, hpiece, htarget, hlinked⟩ hsub hapart
      have hlow := (lowestRelationIndex_mem (linked_mem hlinked).2.1).1
      refine ⟨lowestRelationIndex target, hother (htarget hlow), ?_, ?_⟩
      · exact fun hmem => Finset.disjoint_left.1 hapart hmem (htarget hlow)
      · exact mem_neighbors.2 ⟨piece, target, hpiece.trans hsub, hlinked, rfl⟩
    by_cases hleftpart : left ⊆ part
    · by_cases hmeets : (part ∩ right).Nonempty
      · refine hside right Finset.subset_union_right ihright hmeets fun hrightpart => ?_
        exact hlt.2 (Finset.union_subset hleftpart hrightpart)
      · exact hacross left right Finset.subset_union_right hjoins hleftpart
          (Finset.disjoint_iff_inter_eq_empty.2 (Finset.not_nonempty_iff_eq_empty.1 hmeets))
    · by_cases hmeets : (part ∩ left).Nonempty
      · exact hside left Finset.subset_union_left ihleft hmeets hleftpart
      · have hapart : Disjoint part left :=
          Finset.disjoint_iff_inter_eq_empty.2 (Finset.not_nonempty_iff_eq_empty.1 hmeets)
        have hinright : part ⊆ right := fun r hr =>
          (Finset.mem_union.1 (hlt.1 hr)).resolve_left (Finset.disjoint_left.1 hapart hr)
        by_cases hrightpart : right ⊆ part
        · exact hacross right left Finset.subset_union_left hjoins.symm hrightpart hapart
        · refine hside right Finset.subset_union_right ihright ?_ hrightpart
          rwa [Finset.inter_eq_left.2 hinright]

theorem Plannable.nonempty {mask : RelationSet} (h : Plannable graph mask) : mask.Nonempty := by
  induction h with
  | leaf hr => exact Finset.singleton_nonempty _
  | join _ _ _ _ ihleft _ => exact ihleft.mono Finset.subset_union_left

theorem Plannable.subset {mask : RelationSet} (h : Plannable graph mask) :
    mask ⊆ graph.subsetMask := by
  induction h with
  | leaf hr => exact Finset.singleton_subset_iff.2 hr
  | join _ _ _ _ ihleft ihright => exact Finset.union_subset ihleft ihright

theorem Plannable.spreading {mask : RelationSet} (h : Plannable graph mask) :
    Spreading graph.neighbors mask := by
  refine ⟨h.nonempty, fun r hr => ⟨Finset.singleton_subset_iff.2 hr, fun part hpart hlt => ?_⟩⟩
  exact h.exists_neighbor ((Finset.singleton_nonempty r).mono hpart) hlt

/-- A plannable set of several relations is a pair of a run. -/
theorem Plannable.exists_pair {mask : RelationSet} (h : Plannable graph mask)
    (hcard : mask.card ≠ 1) : ∃ node other, Plannable graph node ∧ Plannable graph other ∧
      node ∈ graph.nodes ∧ other ∈ graph.others node ∧ graph.Joins node other ∧ node ⊂ mask ∧
        node ∪ other = mask := by
  -- the side with the lowest relation is the node
  have hpair : ∀ {node other : RelationSet}, Plannable graph node → Plannable graph other →
      Disjoint node other → graph.Joins node other →
      lowestRelationIndex node < lowestRelationIndex other → node ∈ graph.nodes ∧
        other ∈ graph.others node ∧ node ⊂ node ∪ other := by
    intro node other hnode hother hdisj hjoins hlt
    refine ⟨mem_nodes hnode.spreading hnode.subset, ?_, ?_⟩
    · refine mem_others hother.spreading
        ((disjoint_excluded_iff hnode.nonempty hother.nonempty hother.subset).2 ⟨hdisj, hlt⟩) ?_
      obtain ⟨part, part', hpart, hpart', hlinked⟩ := hjoins
      exact ⟨lowestRelationIndex part', mem_neighbors.2 ⟨part, part', hpart, hlinked, rfl⟩,
        hpart' (lowestRelationIndex_mem (linked_mem hlinked).2.1).1⟩
    · obtain ⟨r, hr⟩ := hother.nonempty
      refine Finset.ssubset_iff_of_subset Finset.subset_union_left |>.2
        ⟨r, Finset.mem_union_right node hr, fun hmem => ?_⟩
      exact Finset.disjoint_left.1 hdisj hmem hr
  cases h with
  | leaf hr => exact absurd (Finset.card_singleton _) hcard
  | @join left right hleft hright hdisj hjoins =>
    rcases lt_trichotomy (lowestRelationIndex left) (lowestRelationIndex right) with
      hlt | heq | hlt
    · obtain ⟨hnode, hother, hsub⟩ := hpair hleft hright hdisj hjoins hlt
      exact ⟨left, right, hleft, hright, hnode, hother, hjoins, hsub, rfl⟩
    · refine absurd (lowestRelationIndex_mem hright.nonempty).1 ?_
      exact heq ▸ Finset.disjoint_left.1 hdisj (lowestRelationIndex_mem hleft.nonempty).1
    · obtain ⟨hnode, hother, hsub⟩ := hpair hright hleft hdisj.symm hjoins.symm hlt
      rw [Finset.union_comm]
      exact ⟨right, left, hright, hleft, hnode, hother, hjoins.symm, hsub, rfl⟩

/-! ### The plans on the way -/

theorem visitOther_keeps {node other mask : RelationSet} {state : EnumeratorState Cost Stats}
    (h : state.plans mask ≠ none) :
    (visitOther graph model node state other).plans mask ≠ none := by
  rw [visitOther]
  split
  · exact tryEmitPair_keeps _ _ _ _ _ h
  · exact h

theorem foldl_visitOther_keeps {node mask : RelationSet} {others : List RelationSet}
    {state : EnumeratorState Cost Stats} (h : state.plans mask ≠ none) :
    (others.foldl (visitOther graph model node) state).plans mask ≠ none := by
  induction others generalizing state with
  | nil => exact h
  | cons other rest ih => exact ih (visitOther_keeps h)

theorem visitNode_keeps {node mask : RelationSet} {state : EnumeratorState Cost Stats}
    (h : state.plans mask ≠ none) : (visitNode graph model state node).plans mask ≠ none := by
  rw [visitNode]
  split
  · exact foldl_visitOther_keeps h
  · exact h

/-- A visit plans the union of two planned sides. -/
theorem foldl_visitOther_planned {node other : RelationSet} {others : List RelationSet}
    {state : EnumeratorState Cost Stats} (hnode : node.Nonempty) (hother : other.Nonempty)
    (hdisj : Disjoint node other) (hplanned : state.plans node ≠ none ∧ state.plans other ≠ none)
    (hjoins : graph.Joins node other) (hmem : other ∈ others) :
    (others.foldl (visitOther graph model node) state).plans (node ∪ other) ≠ none := by
  induction others generalizing state with
  | nil => exact nomatch hmem
  | cons first rest ih =>
    rw [List.foldl_cons]
    rcases List.mem_cons.1 hmem with rfl | hrest
    · refine foldl_visitOther_keeps ?_
      have hconn := getConnections_ne_nil_iff.2 hjoins
      rw [visitOther, if_pos ⟨Or.inr hplanned.2, hconn⟩]
      exact recordPair_planned _ _ _ _ _ hnode hother hdisj hplanned hconn
    · exact ih ⟨visitOther_keeps hplanned.1, visitOther_keeps hplanned.2⟩ hrest

/-- What is planned after some of the nodes. -/
structure Planned (graph : QueryGraph) (done : List RelationSet)
    (state : EnumeratorState Cost Stats) : Prop where
  leaf : ∀ r ∈ graph.subsetMask, state.plans {r} ≠ none
  union : ∀ node ∈ done, ∀ other ∈ graph.others node, Plannable graph node →
    Plannable graph other → graph.Joins node other → state.plans (node ∪ other) ≠ none

theorem Planned.node {done rest : List RelationSet} {node : RelationSet}
    {state : EnumeratorState Cost Stats} (h : Planned graph done state)
    (hnodes : graph.nodes = done ++ node :: rest) (hnode : Plannable graph node) :
    state.plans node ≠ none := by
  by_cases hcard : node.card = 1
  · obtain ⟨r, rfl⟩ := Finset.card_eq_one.1 hcard
    exact h.leaf r (hnode.subset (Finset.mem_singleton_self r))
  · obtain ⟨part, other, hpart, hother, hmem, hmem', hjoins, hlt, heq⟩ := hnode.exists_pair hcard
    exact heq ▸ h.union part (mem_done_of_subset hnodes hmem hlt) other hmem' hpart hother hjoins

theorem Planned.other {done rest : List RelationSet} {node other : RelationSet}
    {state : EnumeratorState Cost Stats} (h : Planned graph done state)
    (hnodes : graph.nodes = done ++ node :: rest) (hmem : other ∈ graph.others node)
    (hother : Plannable graph other) : state.plans other ≠ none := by
  obtain ⟨before, between, rfl⟩ := List.append_of_mem
    (mem_done_of_others hnodes hmem (mem_nodes hother.spreading hother.subset))
  have hearlier : Planned graph before state :=
    ⟨h.leaf, fun part hpart => h.union part (List.mem_append_left _ hpart)⟩
  have hsplit : graph.nodes = before ++ other :: (between ++ node :: rest) := by
    rw [hnodes, List.append_assoc, List.cons_append]
  exact hearlier.node hsplit hother

/-- **One node** keeps what is planned and plans its own unions. -/
theorem Planned.step {done rest : List RelationSet} {node : RelationSet}
    {state : EnumeratorState Cost Stats} (h : Planned graph done state)
    (hnodes : graph.nodes = done ++ node :: rest) :
    Planned graph (done ++ [node]) (visitNode graph model state node) := by
  refine ⟨fun r hr => visitNode_keeps (h.leaf r hr), ?_⟩
  intro part hpart other hmem hpart' hother hjoins
  rcases List.mem_append.1 hpart with hdone | hlast
  · exact visitNode_keeps (h.union part hdone other hmem hpart' hother hjoins)
  · rw [List.mem_singleton] at hlast
    subst hlast
    have hnode : part ∈ graph.nodes := hnodes ▸ List.mem_append_right _ List.mem_cons_self
    have hplanned := h.node hnodes hpart'
    rw [visitNode, if_pos (Or.inr hplanned)]
    exact foldl_visitOther_planned hpart'.nonempty hother.nonempty (pair_disjoint hnode hmem).1
      ⟨hplanned, h.other hnodes hmem hother⟩ hjoins hmem

/-- **The nodes still to come.** -/
theorem Planned.run {done rest : List RelationSet} {state : EnumeratorState Cost Stats}
    (h : Planned graph done state) (hnodes : graph.nodes = done ++ rest) :
    Planned graph graph.nodes (rest.foldl (visitNode graph model) state) := by
  induction rest generalizing done state with
  | nil =>
    rw [List.append_nil] at hnodes
    exact hnodes.symm ▸ h
  | cons node rest ih =>
    refine ih (h.step hnodes) ?_
    rw [hnodes, List.append_assoc, List.singleton_append]

/-! ### Nothing else is planned -/

/-- Every recorded plan is of a plannable set. -/
def Sound (graph : QueryGraph) (state : EnumeratorState Cost Stats) : Prop :=
  ∀ mask, state.plans mask ≠ none → Plannable graph mask

theorem tryRecord_sound {left right : RelationSet} {connections : List JoinOrderNeighborInfo}
    {state : EnumeratorState Cost Stats} (h : Sound graph state)
    (hunion : Plannable graph (left ∪ right)) :
    Sound graph (tryRecord model left right connections state) := by
  intro mask hmask
  by_cases heq : mask = left ∪ right
  · exact heq ▸ hunion
  · rw [tryRecord_plans_of_ne _ _ _ _ _ heq] at hmask
    exact h mask hmask

theorem tryEmitPair_sound {left right : RelationSet} {state : EnumeratorState Cost Stats}
    (h : Sound graph state) : Sound graph (tryEmitPair model graph.root left right state) := by
  rw [tryEmitPair]
  rcases recordPair_cases model graph.root left right _ with
    heq | ⟨⟨-, -, hdisj⟩, ⟨hleft, hright⟩, hconn, connections, heq⟩
  · rw [heq]
    exact h
  · have hunion : Plannable graph (left ∪ right) :=
      .join (h left hleft) (h right hright) hdisj (getConnections_ne_nil_iff.1 hconn)
    rcases heq with heq | ⟨reverseConnections, heq⟩
    · rw [heq]
      exact tryRecord_sound h hunion
    · rw [heq]
      exact tryRecord_sound (tryRecord_sound h hunion) (Finset.union_comm left right ▸ hunion)

theorem foldl_visitOther_sound {node : RelationSet} {others : List RelationSet}
    {state : EnumeratorState Cost Stats} (h : Sound graph state) :
    Sound graph (others.foldl (visitOther graph model node) state) := by
  induction others generalizing state with
  | nil => exact h
  | cons other rest ih =>
    refine ih ?_
    rw [visitOther]
    split
    · exact tryEmitPair_sound h
    · exact h

theorem foldl_visitNode_sound {nodes : List RelationSet} {state : EnumeratorState Cost Stats}
    (h : Sound graph state) : Sound graph (nodes.foldl (visitNode graph model) state) := by
  induction nodes generalizing state with
  | nil => exact h
  | cons node rest ih =>
    refine ih ?_
    rw [visitNode]
    split
    · exact foldl_visitOther_sound h
    · exact h

/-! ### From the leaf plans -/

variable (graph model) in
/-- The leaf plans are those of the single relations. -/
theorem initializeLeafPlans_spec (cardinality : Nat → Nat) (stats : Nat → Stats) :
    (initializeLeafPlans (graph.enumerator model) cardinality stats).emitted = [] ∧
      ∀ mask, (initializeLeafPlans (graph.enumerator model) cardinality stats).plans mask ≠ none ↔
        ∃ r ∈ graph.subsetMask, mask = {r} := by
  have hloop : ∀ (relations : List Nat) (state : EnumeratorState Cost Stats),
      let final := relations.foldl (fun (state : EnumeratorState Cost Stats) idx =>
        if idx ∉ (graph.enumerator model).subsetMask then state
        else
          let set : RelationSet := {idx}
          let node : JoinOrderDPJoinNode Cost :=
            ⟨set, none, true, set, set, (graph.enumerator model).model.zeroCost, cardinality idx⟩
          { state with
            plans := Function.update state.plans set (some node)
            dpStats := Function.update state.dpStats set (some (stats idx)) }) state
      final.emitted = state.emitted ∧ ∀ mask, final.plans mask ≠ none ↔
        (∃ r ∈ relations, r ∈ graph.subsetMask ∧ mask = {r}) ∨ state.plans mask ≠ none := by
    intro relations
    induction relations with
    | nil => exact fun state => ⟨rfl, fun mask => by simp⟩
    | cons idx rest ih =>
      intro state
      dsimp only [List.foldl_cons]
      refine ⟨(ih _).1.trans ?_, fun mask => ((ih _).2 mask).trans ?_⟩
      · split
        · rfl
        · rfl
      · rw [List.exists_mem_cons_iff, or_comm (a := idx ∈ graph.subsetMask ∧ mask = {idx}), or_assoc]
        refine or_congr_right ?_
        split
        · rename_i hidx
          exact (or_iff_right fun h => hidx h.1).symm
        · rename_i hidx
          change Function.update state.plans {idx} _ mask ≠ none ↔ _
          by_cases heq : mask = {idx}
          · rw [heq, Function.update_self]
            exact iff_of_true (Option.some_ne_none _) (Or.inl ⟨not_not.1 hidx, rfl⟩)
          · rw [Function.update_of_ne heq]
            exact (or_iff_right fun h => heq h.2).symm
  obtain ⟨hemitted, hplans⟩ := hloop (List.range graph.relationCount)
    ⟨fun _ => none, fun _ => none, []⟩
  refine ⟨hemitted, fun mask => (hplans mask).trans ?_⟩
  rw [or_iff_left (not_not.2 rfl)]
  constructor
  · rintro ⟨r, -, hr, heq⟩
    exact ⟨r, hr, heq⟩
  · rintro ⟨r, hr, heq⟩
    exact ⟨r, List.mem_range.2 (graph.subset_lt r hr), hr, heq⟩

variable (graph model) in
/-- **A run plans the plannable sets and no others.** -/
theorem plans_solve_iff (cardinality : Nat → Nat) (stats : Nat → Stats) :
    ∃ final, solveJoinOrderExactly (graph.enumerator model)
        (initializeLeafPlans (graph.enumerator model) cardinality stats) = some final ∧
      ∀ mask, final.plans mask ≠ none ↔ Plannable graph mask := by
  obtain ⟨-, hleaf⟩ := initializeLeafPlans_spec graph model cardinality stats
  refine ⟨_, solveJoinOrderExactly_eq _, fun mask => ⟨?_, fun hmask => ?_⟩⟩
  · refine foldl_visitNode_sound (fun mask hmask => ?_) mask
    obtain ⟨r, hr, rfl⟩ := (hleaf mask).1 hmask
    exact .leaf hr
  · have hstart : Planned graph [] (initializeLeafPlans (graph.enumerator model) cardinality stats) :=
      ⟨fun r hr => (hleaf {r}).2 ⟨r, hr, rfl⟩, fun node hnode => nomatch hnode⟩
    have hall : Planned graph graph.nodes (graph.nodes.foldl (visitNode graph model) _) :=
      hstart.run rfl
    obtain ⟨before, after, hsplit⟩ :=
      List.append_of_mem (mem_nodes hmask.spreading hmask.subset)
    have hbefore : Planned graph before _ := ⟨hall.leaf, fun node hnode =>
      hall.union node (hsplit ▸ List.mem_append_left _ hnode)⟩
    exact hbefore.node hsplit hmask

end QueryGraph

end JoinEnumeration
end PgYaap
