import Mathlib
import PgYaap.ConnectedSubsets
import PgYaap.JoinEnumeration

/-! # What the exact join order search enumerates

The three routines of the enumerator make the visits of `growSeeds`: the nodes are grown from
the relations in descending order, and the other sides of a node from its neighbours in the
same way. `pairs` lists both. The module is about the members of these lists and their order,
for edges between any two sets of relations. -/
namespace PgYaap
namespace JoinEnumeration

open LogicalPlan QueryGraphEdges ConnectedSubsets

/-! ## `GetAllNeighborSets` -/

/-- The subsets of a set that have `k` elements, each once. -/
structure IsLayer (mask : RelationSet) (k : Nat) (sets : List RelationSet) : Prop where
  nodup : sets.Nodup
  mem_iff : ∀ subset, subset ∈ sets ↔ subset ⊆ mask ∧ subset.card = k

theorem highestRelationIndex_eq {relationCount : Nat} {mask : RelationSet}
    (h : ∀ r ∈ mask, r < relationCount) : highestRelationIndex relationCount mask = mask.sup id := by
  rw [highestRelationIndex, Finset.filter_true_of_mem h]

theorem mem_addSuperSets {relationCount : Nat} {current : List RelationSet}
    {allNeighbors : List Nat} {superSet : RelationSet} :
    superSet ∈ addSuperSets relationCount current allNeighbors ↔
      ∃ neighborSet ∈ current, ∃ neighbor ∈ allNeighbors,
        highestRelationIndex relationCount neighborSet < neighbor ∧ neighbor ∉ neighborSet ∧
          insert neighbor neighborSet = superSet := by
  rw [addSuperSets, List.mem_flatMap]
  refine exists_congr fun neighborSet => and_congr_right fun _ => ?_
  rw [List.mem_filterMap]
  refine exists_congr fun neighbor => and_congr_right fun _ => ?_
  by_cases hle : neighbor ≤ highestRelationIndex relationCount neighborSet
  · simp only [if_pos hle, reduceCtorEq, Nat.not_lt.2 hle, false_and]
  · rw [if_neg hle]
    by_cases hmem : neighbor ∈ neighborSet
    · simp [hmem]
    · simp [hmem, Nat.lt_of_not_le hle]

/-- A set and a relation above it are determined by the set with the relation added. -/
theorem sup_insert_of_lt {mask : RelationSet} {r : Nat} (h : mask.sup id < r) :
    (insert r mask).sup id = r ∧ (insert r mask).erase r = mask := by
  constructor
  · rw [Finset.sup_insert]
    exact max_eq_left h.le
  · refine Finset.erase_insert fun hmem => ?_
    exact absurd (Finset.le_sup (f := id) hmem) (Nat.not_le.2 h)

theorem isLayer_addSuperSets {relationCount k : Nat} {mask : RelationSet}
    {current : List RelationSet} (hmask : ∀ r ∈ mask, r < relationCount)
    (h : IsLayer mask k current) (hk : 0 < k) :
    IsLayer mask (k + 1) (addSuperSets relationCount current (relationIndexes mask)) := by
  have hhigh : ∀ subset ∈ current,
      highestRelationIndex relationCount subset = subset.sup id := fun subset hsub =>
    highestRelationIndex_eq fun r hr => hmask r (((h.mem_iff subset).1 hsub).1 hr)
  constructor
  · rw [addSuperSets, List.nodup_flatMap]
    constructor
    · intro subset hsub
      refine List.Nodup.filterMap ?_ (pairwise_relationIndexes mask).nodup
      intro r r' superSet hr hr'
      rw [Option.mem_def, hhigh subset hsub] at hr hr'
      split at hr
      · exact nomatch hr
      · split at hr
        · exact nomatch hr
        · split at hr'
          · exact nomatch hr'
          · split at hr'
            · exact nomatch hr'
            · rename_i hlt _ hlt' _
              rw [Option.some.injEq] at hr hr'
              rw [← (sup_insert_of_lt (Nat.lt_of_not_le hlt)).1,
                ← (sup_insert_of_lt (Nat.lt_of_not_le hlt')).1, hr, hr']
    · refine h.nodup.imp_of_mem ?_
      intro subset subset' hsub hsub' hne superSet hmem hmem'
      have hfrom : ∀ {subset}, subset ∈ current →
          superSet ∈ (relationIndexes mask).filterMap (fun neighbor =>
            if neighbor ≤ highestRelationIndex relationCount subset then none
            else if neighbor ∈ subset then none else some (insert neighbor subset)) →
          superSet.erase (superSet.sup id) = subset := by
        intro subset hsub hmem
        have hadd : superSet ∈ addSuperSets relationCount [subset] (relationIndexes mask) := by
          rwa [addSuperSets, List.flatMap_cons, List.flatMap_nil, List.append_nil]
        obtain ⟨subset', hsub', r, -, hlt, -, rfl⟩ := mem_addSuperSets.1 hadd
        rw [List.mem_singleton.1 hsub', hhigh subset hsub] at *
        rw [(sup_insert_of_lt hlt).1, (sup_insert_of_lt hlt).2]
      exact hne ((hfrom hsub hmem).symm.trans (hfrom hsub' hmem'))
  · intro superSet
    rw [mem_addSuperSets]
    constructor
    · rintro ⟨subset, hsub, r, hr, -, hnot, rfl⟩
      obtain ⟨hle, hcard⟩ := (h.mem_iff subset).1 hsub
      refine ⟨Finset.insert_subset (mem_relationIndexes.1 hr) hle, ?_⟩
      rw [Finset.card_insert_of_notMem hnot, hcard]
    · rintro ⟨hle, hcard⟩
      have hne : superSet.Nonempty := Finset.card_pos.1 (by omega)
      have hmax := Finset.max'_mem superSet hne
      refine ⟨superSet.erase (superSet.max' hne), ?_, superSet.max' hne,
        mem_relationIndexes.2 (hle hmax), ?_, Finset.notMem_erase _ _, Finset.insert_erase hmax⟩
      · refine (h.mem_iff _).2 ⟨(Finset.erase_subset _ _).trans hle, ?_⟩
        rw [Finset.card_erase_of_mem hmax, hcard, Nat.add_sub_cancel]
      · rw [highestRelationIndex_eq fun r hr => hmask r (hle (Finset.mem_of_mem_erase hr))]
        have hpos : 0 < (superSet.erase (superSet.max' hne)).card := by
          rw [Finset.card_erase_of_mem hmax, hcard, Nat.add_sub_cancel]
          exact hk
        obtain ⟨low, hlow⟩ := Finset.card_pos.1 hpos
        have hless : ∀ r ∈ superSet.erase (superSet.max' hne), r < superSet.max' hne :=
          fun r hr => Finset.lt_max'_of_mem_erase_max' superSet hne hr
        exact (Finset.sup_lt_iff (Nat.zero_lt_of_lt (hless low hlow))).2 hless

/-- What the rounds add: the larger subsets, in the order of their sizes. -/
theorem superSetRounds_spec {relationCount k fuel : Nat} {mask : RelationSet}
    {added : List RelationSet} (hmask : ∀ r ∈ mask, r < relationCount)
    (h : IsLayer mask k added) (hk : 0 < k) (hfuel : mask.card ≤ k + fuel) :
    (∀ subset, subset ∈ superSetRounds relationCount (relationIndexes mask) fuel added ↔
        subset ⊆ mask ∧ k < subset.card) ∧
      (superSetRounds relationCount (relationIndexes mask) fuel added).Pairwise
        fun subset subset' => ¬ subset' ⊆ subset := by
  induction fuel generalizing k added with
  | zero =>
    refine ⟨fun subset => iff_of_false (fun hmem => nomatch hmem) ?_, List.Pairwise.nil⟩
    rintro ⟨hsub, hlt⟩
    exact absurd (Finset.card_le_card hsub) (by omega)
  | succ fuel ih =>
    have hlayer := isLayer_addSuperSets hmask h hk
    rw [superSetRounds]
    by_cases hnil : addSuperSets relationCount added (relationIndexes mask) = []
    · rw [if_pos hnil]
      refine ⟨fun subset => iff_of_false (fun hmem => nomatch hmem) ?_, List.Pairwise.nil⟩
      rintro ⟨hsub, hlt⟩
      obtain ⟨part, hpart, hcard⟩ := Finset.exists_subset_card_eq (Nat.succ_le_of_lt hlt)
      have hmem := (hlayer.mem_iff part).2 ⟨hpart.trans hsub, hcard⟩
      rw [hnil] at hmem
      exact nomatch hmem
    · rw [if_neg hnil]
      obtain ⟨hmem, hpair⟩ := ih hlayer (Nat.succ_pos k) (by omega)
      constructor
      · intro subset
        rw [List.mem_append, hlayer.mem_iff, hmem]
        constructor
        · rintro (⟨hsub, hcard⟩ | ⟨hsub, hlt⟩)
          · exact ⟨hsub, by omega⟩
          · exact ⟨hsub, by omega⟩
        · rintro ⟨hsub, hlt⟩
          by_cases hcard : subset.card = k + 1
          · exact Or.inl ⟨hsub, hcard⟩
          · exact Or.inr ⟨hsub, by omega⟩
      · refine List.pairwise_append.2 ⟨?_, hpair, ?_⟩
        · refine hlayer.nodup.imp_of_mem fun hsub hsub' hne hle => hne ?_
          refine (Finset.eq_of_subset_of_card_le hle ?_).symm
          rw [((hlayer.mem_iff _).1 hsub).2, ((hlayer.mem_iff _).1 hsub').2]
        · intro subset hsub subset' hsub' hle
          have hcard := ((hlayer.mem_iff subset).1 hsub).2
          have hlt := ((hmem subset').1 hsub').2
          exact absurd (Finset.card_le_card hle) (by omega)

theorem isLayer_singletons (mask : RelationSet) :
    IsLayer mask 1 ((relationIndexes mask).map fun r => ({r} : RelationSet)) := by
  constructor
  · exact (pairwise_relationIndexes mask).nodup.map Finset.singleton_injective
  · intro subset
    rw [List.mem_map]
    constructor
    · rintro ⟨r, hr, rfl⟩
      exact ⟨Finset.singleton_subset_iff.2 (mem_relationIndexes.1 hr), Finset.card_singleton r⟩
    · rintro ⟨hsub, hcard⟩
      obtain ⟨r, rfl⟩ := Finset.card_eq_one.1 hcard
      exact ⟨r, mem_relationIndexes.2 (Finset.singleton_subset_iff.1 hsub), rfl⟩

theorem length_relationIndexes (mask : RelationSet) : (relationIndexes mask).length = mask.card := by
  rw [← List.toFinset_card_of_nodup (pairwise_relationIndexes mask).nodup]
  refine congrArg Finset.card (Finset.ext fun r => ?_)
  rw [List.mem_toFinset, mem_relationIndexes]

/-- **`GetAllNeighborSets`** lists the nonempty subsets, the smaller ones first. -/
def neighborSetListing {relationCount : Nat} {relations : RelationSet}
    (h : ∀ r ∈ relations, r < relationCount) : SubsetListing relations where
  sets mask := getAllNeighborSets relationCount (relationIndexes mask)
  mem_sets mask hmask subset := by
    have hsort : (relationIndexes mask).insertionSort (· ≤ ·) = relationIndexes mask :=
      ((pairwise_relationIndexes mask).imp le_of_lt).insertionSort_eq
    have hlayer := isLayer_singletons mask
    have hrounds := (superSetRounds_spec (fun r hr => h r (hmask hr)) hlayer Nat.one_pos
      (Nat.le_add_left mask.card 1)).1 subset
    rw [getAllNeighborSets, hsort, List.mem_append, hlayer.mem_iff, length_relationIndexes, hrounds,
      ← Finset.card_pos, ← and_or_left]
    exact and_congr_right fun _ => by omega
  pairwise mask hmask := by
    have hsort : (relationIndexes mask).insertionSort (· ≤ ·) = relationIndexes mask :=
      ((pairwise_relationIndexes mask).imp le_of_lt).insertionSort_eq
    have hlayer := isLayer_singletons mask
    obtain ⟨hmem, hpair⟩ := superSetRounds_spec (fun r hr => h r (hmask hr)) hlayer Nat.one_pos
      (Nat.le_add_left mask.card 1)
    rw [getAllNeighborSets, hsort, length_relationIndexes]
    refine List.pairwise_append.2 ⟨?_, hpair, ?_⟩
    · refine hlayer.nodup.imp_of_mem fun hsub hsub' hne hle => hne ?_
      refine (Finset.eq_of_subset_of_card_le hle ?_).symm
      rw [((hlayer.mem_iff _).1 hsub).2, ((hlayer.mem_iff _).1 hsub').2]
    · intro subset hsub subset' hsub' hle
      have hcard := ((hlayer.mem_iff subset).1 hsub).2
      have hlt := ((hmem subset').1 hsub').2
      exact absurd (Finset.card_le_card hle) (by omega)

/-! ## The lowest relation of a set -/

theorem lowestRelationIndex_mem {mask : RelationSet} (h : mask.Nonempty) :
    lowestRelationIndex mask ∈ mask ∧ ∀ r ∈ mask, lowestRelationIndex mask ≤ r := by
  obtain ⟨r, hr⟩ := h
  have hsorted := pairwise_relationIndexes mask
  have hmem : ∀ r, r ∈ relationIndexes mask ↔ r ∈ mask := fun _ => mem_relationIndexes
  rw [lowestRelationIndex]
  cases hlist : relationIndexes mask with
  | nil =>
    rw [← hmem r, hlist] at hr
    exact nomatch hr
  | cons low rest =>
    rw [hlist] at hsorted
    rw [List.headD_cons]
    refine ⟨(hmem low).1 (hlist ▸ List.mem_cons_self), fun r' hr' => ?_⟩
    rw [← hmem r', hlist] at hr'
    rcases List.mem_cons.1 hr' with rfl | hrest
    · exact le_refl _
    · exact ((List.pairwise_cons.1 hsorted).1 r' hrest).le

/-! ## The graph of a run -/

/-- A set of relations and edges between parts of it. -/
structure QueryGraph where
  relationCount : Nat
  subsetMask : RelationSet
  subset_lt : ∀ r ∈ subsetMask, r < relationCount
  edges : List JoinEdge
  edges_mem : ∀ edge ∈ edges, (edge.left.Nonempty ∧ edge.left ⊆ subsetMask) ∧
    edge.right.Nonempty ∧ edge.right ⊆ subsetMask

namespace QueryGraph

variable (graph : QueryGraph)

def root : QueryEdge := buildEdges graph.edges QueryEdge.empty

/-- What the enumerator is run on. -/
def enumerator (model : JoinOrderCostModel Cost Stats) : JoinOrderPlanEnumerator Cost Stats :=
  ⟨graph.relationCount, graph.subsetMask, graph.root, model⟩

/-- The lowest relations of the sets that an edge joins to a part of the node. -/
def neighbors (node : RelationSet) : RelationSet := neighborMask graph.root node ∅

/-- An edge leads from one set into the other. -/
def Joins (left right : RelationSet) : Prop :=
  ∃ part part', part ⊆ left ∧ part' ⊆ right ∧ Linked graph.edges part part'

variable {graph}

theorem linked_mem {left right : RelationSet} (h : Linked graph.edges left right) :
    (left.Nonempty ∧ left ⊆ graph.subsetMask) ∧ right.Nonempty ∧ right ⊆ graph.subsetMask := by
  obtain ⟨edge, hedge, ⟨rfl, rfl⟩ | ⟨rfl, rfl⟩⟩ := h
  · exact graph.edges_mem edge hedge
  · exact (graph.edges_mem edge hedge).symm

theorem mem_neighbors {node : RelationSet} {r : Nat} : r ∈ graph.neighbors node ↔
    ∃ left right, left ⊆ node ∧ Linked graph.edges left right ∧ lowestRelationIndex right = r := by
  rw [neighbors, root, mem_neighborMask]
  constructor
  · rintro ⟨-, left, right, -, hsub, hlinked, hlow⟩
    exact ⟨left, right, hsub, hlinked, hlow⟩
  · rintro ⟨left, right, hsub, hlinked, hlow⟩
    exact ⟨Finset.notMem_empty r, left, right, (linked_mem hlinked).1.1, hsub, hlinked, hlow⟩

theorem neighbors_mono : Monotone graph.neighbors := by
  intro node node' hle r hr
  obtain ⟨left, right, hsub, hlinked, hlow⟩ := mem_neighbors.1 hr
  exact mem_neighbors.2 ⟨left, right, hsub.trans hle, hlinked, hlow⟩

theorem neighbors_subset (node : RelationSet) : graph.neighbors node ⊆ graph.subsetMask := by
  intro r hr
  obtain ⟨left, right, -, hlinked, rfl⟩ := mem_neighbors.1 hr
  obtain ⟨-, hne, hsub⟩ := linked_mem hlinked
  exact hsub (lowestRelationIndex_mem hne).1

theorem getNeighbors_eq (node exclusion : RelationSet) :
    getNeighbors graph.root node exclusion = relationIndexes (graph.neighbors node \ exclusion) := by
  refine congrArg relationIndexes (Finset.ext fun r => ?_)
  rw [neighbors, neighborMask, neighborMask, Finset.mem_sdiff, Finset.mem_filter, Finset.mem_filter]
  exact and_congr_left fun _ => (and_iff_left (Finset.notMem_empty r)).symm

theorem getConnections_ne_nil_iff {left right : RelationSet} :
    getConnections graph.root left right ≠ [] ↔ graph.Joins left right := by
  rw [root, getConnections_ne_nil]
  constructor
  · rintro ⟨part, part', -, hsub, hsub', hlinked⟩
    exact ⟨part, part', hsub, hsub', hlinked⟩
  · rintro ⟨part, part', hsub, hsub', hlinked⟩
    exact ⟨part, part', (linked_mem hlinked).1.1, hsub, hsub', hlinked⟩

theorem Joins.symm {left right : RelationSet} (h : graph.Joins left right) :
    graph.Joins right left := by
  obtain ⟨part, part', hsub, hsub', hlinked⟩ := h
  exact ⟨part', part, hsub', hsub, hlinked.symm⟩

/-! ## The pairs of a run -/

variable (graph)

def listing : SubsetListing graph.subsetMask := neighborSetListing graph.subset_lt

/-- What the other side of a node never contains. -/
def excluded (node : RelationSet) : RelationSet :=
  graph.subsetMask.filter (· < lowestRelationIndex node) ∪ node

/-- The relations in descending order. -/
def seeds : List Nat := ((List.range graph.relationCount).filter (· ∈ graph.subsetMask)).reverse

/-- The neighbours of a node in the order of `EmitCSG`. -/
def otherSeeds (node : RelationSet) : List Nat :=
  (relationIndexes (graph.neighbors node \ graph.excluded node)).insertionSort (· ≥ ·)

/-- The nodes in the order of `EmitCSG`. -/
def nodes : List RelationSet :=
  growSeeds graph.neighbors graph.listing (graph.relationCount + 1) ∅ graph.seeds

/-- The other sides of a node in the order of `TryEmitPair`. -/
def others (node : RelationSet) : List RelationSet :=
  growSeeds graph.neighbors graph.listing (graph.relationCount + 1) (graph.excluded node)
    (graph.otherSeeds node)

/-- The pairs of a run, in order. -/
def pairs : List (RelationSet × RelationSet) :=
  graph.nodes.flatMap fun node => (graph.others node).map fun other => (node, other)

variable {graph}

theorem card_subsetMask_le : graph.subsetMask.card ≤ graph.relationCount := by
  have hsub : graph.subsetMask ⊆ Finset.range graph.relationCount := fun r hr =>
    Finset.mem_range.2 (graph.subset_lt r hr)
  exact (Finset.card_le_card hsub).trans_eq (Finset.card_range _)

theorem fuel_enough : graph.subsetMask.card ≤ graph.relationCount + 1 :=
  card_subsetMask_le.trans (Nat.le_succ _)

theorem mem_seeds {r : Nat} : r ∈ graph.seeds ↔ r ∈ graph.subsetMask := by
  rw [seeds, List.mem_reverse, List.mem_filter, decide_eq_true_iff, List.mem_range]
  exact and_iff_right_of_imp (graph.subset_lt r)

theorem pairwise_seeds : graph.seeds.Pairwise (· > ·) :=
  List.pairwise_reverse.2 (List.pairwise_lt_range.filter _)

theorem mem_otherSeeds {node : RelationSet} {r : Nat} :
    r ∈ graph.otherSeeds node ↔ r ∈ graph.neighbors node ∧ r ∉ graph.excluded node := by
  rw [otherSeeds, List.mem_insertionSort, mem_relationIndexes, Finset.mem_sdiff]

theorem nodup_otherSeeds (node : RelationSet) : (graph.otherSeeds node).Nodup :=
  (List.perm_insertionSort _ _).nodup_iff.2 (pairwise_relationIndexes _).nodup

theorem notMem_excluded_of_otherSeeds {node : RelationSet} :
    ∀ r ∈ graph.otherSeeds node, r ∉ graph.excluded node := fun _ hr => (mem_otherSeeds.1 hr).2

theorem mem_nodes {mask : RelationSet} (h : Spreading graph.neighbors mask)
    (hsub : mask ⊆ graph.subsetMask) : mask ∈ graph.nodes := by
  obtain ⟨r, hr⟩ := h.1
  exact mem_growSeeds neighbors_mono neighbors_subset fuel_enough
    (fun v _ => Finset.notMem_empty v) (pairwise_seeds.imp ne_of_gt) h
    (Finset.disjoint_empty_right _) ⟨r, mem_seeds.2 (hsub hr), hr⟩

theorem nodes_sound {mask : RelationSet} (h : mask ∈ graph.nodes) :
    mask.Nonempty ∧ mask ⊆ graph.subsetMask ∧ ∃ r, GrowsTo graph.neighbors {r} mask := by
  obtain ⟨-, r, hr, hgrow⟩ := growSeeds_sound neighbors_mono neighbors_subset fuel_enough
    (fun v _ => Finset.notMem_empty v) (pairwise_seeds.imp ne_of_gt) h
  exact ⟨⟨r, Finset.singleton_subset_iff.1 hgrow.1⟩,
    hgrow.subset neighbors_subset (mem_seeds.1 hr), r, hgrow⟩

theorem mem_others {node other : RelationSet} (h : Spreading graph.neighbors other)
    (hdisj : Disjoint other (graph.excluded node))
    (hseed : ∃ r ∈ graph.neighbors node, r ∈ other) : other ∈ graph.others node := by
  obtain ⟨r, hr, hmem⟩ := hseed
  exact mem_growSeeds neighbors_mono neighbors_subset fuel_enough notMem_excluded_of_otherSeeds
    (nodup_otherSeeds node) h hdisj
    ⟨r, mem_otherSeeds.2 ⟨hr, Finset.disjoint_left.1 hdisj hmem⟩, hmem⟩

theorem others_sound {node other : RelationSet} (h : other ∈ graph.others node) :
    other.Nonempty ∧ other ⊆ graph.subsetMask ∧ Disjoint other (graph.excluded node) ∧
      ∃ r ∈ graph.neighbors node, GrowsTo graph.neighbors {r} other := by
  obtain ⟨hdisj, r, hr, hgrow⟩ := growSeeds_sound neighbors_mono neighbors_subset fuel_enough
    notMem_excluded_of_otherSeeds (nodup_otherSeeds node) h
  obtain ⟨hneighbor, -⟩ := mem_otherSeeds.1 hr
  exact ⟨⟨r, Finset.singleton_subset_iff.1 hgrow.1⟩,
    hgrow.subset neighbors_subset (neighbors_subset node hneighbor), hdisj, r, hneighbor, hgrow⟩

theorem nodup_others (node : RelationSet) : (graph.others node).Nodup :=
  nodup_growSeeds neighbors_mono neighbors_subset fuel_enough notMem_excluded_of_otherSeeds
    (nodup_otherSeeds node)

/-- A node comes after its parts, and never above an earlier node. -/
theorem pairwise_nodes : graph.nodes.Pairwise fun node later =>
    ¬ later ⊆ node ∧ ∃ low ∈ later, ∀ r ∈ node, low ≤ r := by
  refine List.Pairwise.and ?_ ?_
  · exact pairwise_growSeeds neighbors_mono neighbors_subset fuel_enough
      (fun v _ => Finset.notMem_empty v) (pairwise_seeds.imp ne_of_gt)
  · refine pairwise_growSeeds_bound neighbors_mono neighbors_subset fuel_enough
      (fun v _ => Finset.notMem_empty v) pairwise_seeds ?_
    -- what grows from a relation of the search stays in the search
    rintro mask ⟨w, hw, hgrow⟩ u hu hnot v -
    exact absurd (mem_seeds.2 (hgrow.subset neighbors_subset (mem_seeds.1 hw) hu)) hnot

/-- The other side of a node lies above its lowest relation. -/
theorem disjoint_excluded_iff {node other : RelationSet} (hnode : node.Nonempty)
    (hother : other.Nonempty) (hsub : other ⊆ graph.subsetMask) :
    Disjoint other (graph.excluded node) ↔
      Disjoint node other ∧ lowestRelationIndex node < lowestRelationIndex other := by
  obtain ⟨hlow, hle⟩ := lowestRelationIndex_mem hnode
  obtain ⟨hlow', hle'⟩ := lowestRelationIndex_mem hother
  have hcomm : Disjoint node other ↔ Disjoint other node := disjoint_comm
  rw [excluded, Finset.disjoint_union_right, hcomm, and_comm]
  refine and_congr_right fun hdisj => ?_
  have hne : lowestRelationIndex node ≠ lowestRelationIndex other := fun heq =>
    Finset.disjoint_left.1 hdisj hlow' (heq ▸ hlow)
  constructor
  · intro hbelow
    refine lt_of_le_of_ne (Nat.not_lt.1 fun hlt => ?_) hne
    exact Finset.disjoint_left.1 hbelow hlow' (Finset.mem_filter.2 ⟨hsub hlow', hlt⟩)
  · intro hlt
    refine Finset.disjoint_left.2 fun r hr hmem => ?_
    exact absurd (hle' r hr) (Nat.not_le.2 ((Finset.mem_filter.1 hmem).2.trans hlt))

/-- The two sides of a pair are disjoint, the node below the other side. -/
theorem pair_disjoint {node other : RelationSet} (hnode : node ∈ graph.nodes)
    (hother : other ∈ graph.others node) :
    Disjoint node other ∧ lowestRelationIndex node < lowestRelationIndex other := by
  obtain ⟨hne, hsub, hdisj, -⟩ := others_sound hother
  exact (disjoint_excluded_iff (nodes_sound hnode).1 hne hsub).1 hdisj

/-- The lowest relation of a later node is in no other side of an earlier one. -/
theorem later_notMem_others {node later other : RelationSet} (hnode : node ∈ graph.nodes)
    (hother : other ∈ graph.others node) (hlow : ∃ low ∈ later, ∀ r ∈ node, low ≤ r) :
    ¬ later ⊆ other := by
  intro hsub
  obtain ⟨-, hlt⟩ := pair_disjoint hnode hother
  obtain ⟨low, hlow, hle⟩ := hlow
  have hbound := hle _ (lowestRelationIndex_mem (nodes_sound hnode).1).1
  have hbound' := (lowestRelationIndex_mem (others_sound hother).1).2 low (hsub hlow)
  exact absurd hbound' (by omega)

theorem mem_pairs {node other : RelationSet} :
    (node, other) ∈ graph.pairs ↔ node ∈ graph.nodes ∧ other ∈ graph.others node := by
  rw [pairs, List.mem_flatMap]
  constructor
  · rintro ⟨node', hnode', hmem⟩
    obtain ⟨other', hother', heq⟩ := List.mem_map.1 hmem
    obtain ⟨rfl, rfl⟩ := Prod.mk.injEq .. ▸ heq
    exact ⟨hnode', hother'⟩
  · rintro ⟨hnode, hother⟩
    exact ⟨node, hnode, List.mem_map.2 ⟨other, hother, rfl⟩⟩

/-- Pairwise over the pairs, from the pairs of one node and those of two. -/
theorem pairwise_pairs_of {relation : RelationSet × RelationSet → RelationSet × RelationSet → Prop}
    (hsame : ∀ node ∈ graph.nodes, ∀ other ∈ graph.others node, ∀ other' ∈ graph.others node,
      other ≠ other' → relation (node, other) (node, other'))
    (hlater : ∀ node ∈ graph.nodes, ∀ later ∈ graph.nodes, ¬ later ⊆ node →
      (∃ low ∈ later, ∀ r ∈ node, low ≤ r) → ∀ other ∈ graph.others node,
      ∀ other' ∈ graph.others later, relation (node, other) (later, other')) :
    graph.pairs.Pairwise relation := by
  rw [pairs, List.pairwise_flatMap]
  constructor
  · intro node hnode
    rw [List.pairwise_map]
    exact (nodup_others node).imp_of_mem fun hother hother' hne =>
      hsame node hnode _ hother _ hother' hne
  · refine pairwise_nodes.imp_of_mem ?_
    rintro node later hnode hlater' ⟨hsub, hlow⟩ _ hmem _ hmem'
    obtain ⟨other, hother, rfl⟩ := List.mem_map.1 hmem
    obtain ⟨other', hother', rfl⟩ := List.mem_map.1 hmem'
    exact hlater node hnode later hlater' hsub hlow other hother other' hother'

theorem nodup_pairs : graph.pairs.Nodup := by
  apply pairwise_pairs_of
  · intro node _ other _ other' _ hne heq
    exact hne (Prod.mk.injEq .. ▸ heq).2
  · intro node _ later _ hsub _ other _ other' _ heq
    have hnode : node = later := (Prod.mk.injEq .. ▸ heq).1
    exact hsub (hnode ▸ Finset.Subset.refl node)

/-- **Order**: no pair has a union that is a side of an earlier pair. -/
theorem pairwise_pairs : graph.pairs.Pairwise fun pair later =>
    later.1 ∪ later.2 ≠ pair.1 ∧ later.1 ∪ later.2 ≠ pair.2 := by
  apply pairwise_pairs_of
  · intro node hnode other hother other' hother' _
    obtain ⟨s, hs⟩ := (nodes_sound hnode).1
    obtain ⟨r, hr⟩ := (others_sound hother').1
    constructor
    · intro (heq : node ∪ other' = node)
      exact Finset.disjoint_left.1 (pair_disjoint hnode hother').1
        (heq ▸ Finset.mem_union_right node hr) hr
    · intro (heq : node ∪ other' = other)
      exact Finset.disjoint_left.1 (pair_disjoint hnode hother).1 hs
        (heq ▸ Finset.mem_union_left other' hs)
  · intro node hnode later hlater hsub hlow other hother other' hother'
    constructor
    · intro (heq : later ∪ other' = node)
      exact hsub (heq ▸ Finset.subset_union_left)
    · intro (heq : later ∪ other' = other)
      exact later_notMem_others hnode hother hlow (heq ▸ Finset.subset_union_left)

/-! ## What comes before a node -/

/-- A smaller node comes before a node that contains it. -/
theorem mem_done_of_subset {done rest : List RelationSet} {node part : RelationSet}
    (hnodes : graph.nodes = done ++ node :: rest) (hpart : part ∈ graph.nodes)
    (hlt : part ⊂ node) : part ∈ done := by
  have hpair : graph.nodes.Pairwise _ := pairwise_nodes
  rw [hnodes] at hpart hpair
  refine (List.mem_append.1 hpart).resolve_right fun hlater => ?_
  rcases List.mem_cons.1 hlater with rfl | hrest
  · exact hlt.ne rfl
  · exact ((List.pairwise_cons.1 (List.pairwise_append.1 hpair).2.1).1 part hrest).1 hlt.1

/-- A node that is another side of a node comes before it. -/
theorem mem_done_of_others {done rest : List RelationSet} {node other : RelationSet}
    (hnodes : graph.nodes = done ++ node :: rest) (hother : other ∈ graph.others node)
    (hmem : other ∈ graph.nodes) : other ∈ done := by
  have hnode : node ∈ graph.nodes := hnodes ▸ List.mem_append_right _ List.mem_cons_self
  have hpair : graph.nodes.Pairwise _ := pairwise_nodes
  rw [hnodes] at hmem hpair
  refine (List.mem_append.1 hmem).resolve_right fun hlater => ?_
  rcases List.mem_cons.1 hlater with rfl | hrest
  · obtain ⟨r, hr⟩ := (nodes_sound hnode).1
    exact Finset.disjoint_left.1 (pair_disjoint hnode hother).1 hr hr
  · have hlow := ((List.pairwise_cons.1 (List.pairwise_append.1 hpair).2.1).1 other hrest).2
    exact later_notMem_others hnode hother hlow (Finset.Subset.refl other)

end QueryGraph

end JoinEnumeration
end PgYaap
