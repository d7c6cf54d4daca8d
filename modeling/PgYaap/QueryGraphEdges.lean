import Mathlib
import PgYaap.LogicalPlan

/-! # The query graph of the join order search

Model of `JoinOrderQueryGraphEdges` (`join_order_query_graph_edges.cpp`). A mask of
relations is the finite set of its indexes. An edge leads from a set of relations to another;
the edges are kept in a trie along the ascending indexes of their left set, and a lookup walks
the trie along the indexes of a node. `exists_neighbor_iff` says what a lookup finds. -/
namespace PgYaap
namespace QueryGraphEdges

open LogicalPlan

/-- `JoinOrderRelationSet`, by its mask. -/
abbrev RelationSet := Finset Nat

/-- `JoinOrderRelationSet::relations`, which is also `RelationIndexes`. -/
def relationIndexes (mask : RelationSet) : List Nat :=
  (List.range (mask.sup id + 1)).filter (· ∈ mask)

/-- `LowestRelationIndex`: 64 for the empty mask. -/
def lowestRelationIndex (mask : RelationSet) : Nat := (relationIndexes mask).headD 64

/-- The part of `JoinOrderFilterInfo` that the enumeration reads itself. -/
structure JoinOrderFilterInfo where
  filterIndex : Nat
  joinType : JoinType
  fromResidualPredicate : Bool
  deriving DecidableEq

structure JoinOrderNeighborInfo where
  neighbor : RelationSet
  filters : List JoinOrderFilterInfo
  deriving DecidableEq

/-- `QueryEdge`: a node of the trie. -/
inductive QueryEdge
  | mk (neighbors : List JoinOrderNeighborInfo) (children : Nat → Option QueryEdge)

namespace QueryEdge

def neighbors : QueryEdge → List JoinOrderNeighborInfo
  | mk neighbors _ => neighbors

def children : QueryEdge → Nat → Option QueryEdge
  | mk _ children => children

def empty : QueryEdge := mk [] fun _ => none

@[simp] theorem neighbors_mk (neighbors : List JoinOrderNeighborInfo)
    (children : Nat → Option QueryEdge) : (mk neighbors children).neighbors = neighbors := rfl

@[simp] theorem children_mk (neighbors : List JoinOrderNeighborInfo)
    (children : Nat → Option QueryEdge) : (mk neighbors children).children = children := rfl

end QueryEdge

open QueryEdge

/-! ## Registering an edge -/

/-- The loop of `CreateEdge` over the neighbours of its trie node. -/
def addNeighbor (right : RelationSet) (filterInfo : Option JoinOrderFilterInfo) :
    List JoinOrderNeighborInfo → List JoinOrderNeighborInfo
  | [] => [⟨right, filterInfo.toList⟩]
  | info :: rest =>
    if info.neighbor = right then { info with filters := info.filters ++ filterInfo.toList } :: rest
    else info :: addNeighbor right filterInfo rest

/-- `CreateEdge` below a trie node, along the rest of the left set (`GetQueryEdge`). -/
def createEdgeAt (right : RelationSet) (filterInfo : Option JoinOrderFilterInfo) :
    List Nat → QueryEdge → QueryEdge
  | [], edge => mk (addNeighbor right filterInfo edge.neighbors) edge.children
  | relation :: rest, edge =>
    mk edge.neighbors (Function.update edge.children relation
      (some (createEdgeAt right filterInfo rest ((edge.children relation).getD empty))))

/-- `CreateEdge`. -/
def createEdge (left right : RelationSet) (filterInfo : Option JoinOrderFilterInfo)
    (root : QueryEdge) : QueryEdge :=
  createEdgeAt right filterInfo (relationIndexes left) root

/-! ## Looking edges up -/

/-- `EnumerateNeighborsDFS` without the neighbours of the node it starts at, along the
relations from `index` on; no caller's callback stops it. At the root this is
`EnumerateNeighbors`. -/
def enumerateNeighborsDFS : List Nat → QueryEdge → List JoinOrderNeighborInfo
  | [], _ => []
  | relation :: rest, edge =>
    ((edge.children relation).elim [] fun child =>
      child.neighbors ++ enumerateNeighborsDFS rest child) ++ enumerateNeighborsDFS rest edge

/-- `EnumerateNeighbors`. -/
def enumerateNeighbors (root : QueryEdge) (node : RelationSet) : List JoinOrderNeighborInfo :=
  enumerateNeighborsDFS (relationIndexes node) root

/-- The mask that `GetNeighbors` collects. -/
def neighborMask (root : QueryEdge) (node exclusion : RelationSet) : RelationSet :=
  ((enumerateNeighbors root node).map fun info => lowestRelationIndex info.neighbor).toFinset.filter
    (· ∉ exclusion)

/-- `GetNeighbors`. -/
def getNeighbors (root : QueryEdge) (node exclusion : RelationSet) : List Nat :=
  relationIndexes (neighborMask root node exclusion)

/-- `GetConnections`. -/
def getConnections (root : QueryEdge) (node other : RelationSet) : List JoinOrderNeighborInfo :=
  (enumerateNeighbors root node).filter fun info => info.neighbor ⊆ other

/-! ## What a lookup finds -/

/-- The neighbours registered at a path of the trie. -/
def neighborsAt : List Nat → QueryEdge → List JoinOrderNeighborInfo
  | [], edge => edge.neighbors
  | relation :: rest, edge => (edge.children relation).elim [] (neighborsAt rest)

@[simp] theorem neighborsAt_empty (path : List Nat) : neighborsAt path empty = [] := by
  cases path with
  | nil => rfl
  | cons relation rest => rfl

/-- An edge is registered at its own path only. -/
theorem neighborsAt_createEdgeAt (right : RelationSet) (filterInfo : Option JoinOrderFilterInfo)
    (left path : List Nat) (edge : QueryEdge) :
    neighborsAt path (createEdgeAt right filterInfo left edge) =
      if path = left then addNeighbor right filterInfo (neighborsAt path edge)
      else neighborsAt path edge := by
  induction left generalizing path edge with
  | nil =>
    cases path with
    | nil => simp [createEdgeAt, neighborsAt]
    | cons step path => simp [createEdgeAt, neighborsAt]
  | cons relation rest ih =>
    cases path with
    | nil => simp [createEdgeAt, neighborsAt]
    | cons step path =>
      by_cases hstep : step = relation
      · subst hstep
        cases hchild : edge.children step with
        | none => simp [createEdgeAt, neighborsAt, ih, hchild]
        | some child => simp [createEdgeAt, neighborsAt, ih, hchild]
      · simp [createEdgeAt, neighborsAt, hstep]

/-- A walk finds what is registered at the nonempty sublists of its relations. -/
theorem mem_enumerateNeighborsDFS {info : JoinOrderNeighborInfo} (node : List Nat)
    (edge : QueryEdge) :
    info ∈ enumerateNeighborsDFS node edge ↔
      ∃ path, path ≠ [] ∧ path.Sublist node ∧ info ∈ neighborsAt path edge := by
  induction node generalizing edge with
  | nil =>
    refine iff_of_false (fun h => nomatch h) ?_
    rintro ⟨path, hne, hsub, -⟩
    exact hne (List.sublist_nil.1 hsub)
  | cons relation rest ih =>
    rw [enumerateNeighborsDFS, List.mem_append, ih]
    constructor
    · rintro (hchild | ⟨path, hne, hsub, hmem⟩)
      · cases hc : edge.children relation with
        | none => simp [hc] at hchild
        | some child =>
          rw [hc, Option.elim_some, List.mem_append, ih] at hchild
          rcases hchild with hmem | ⟨path, -, hsub, hmem⟩
          · exact ⟨[relation], List.cons_ne_nil _ _, List.singleton_sublist.2 List.mem_cons_self,
              by simpa [neighborsAt, hc] using hmem⟩
          · exact ⟨relation :: path, List.cons_ne_nil _ _, hsub.cons_cons relation,
              by simpa [neighborsAt, hc] using hmem⟩
      · exact ⟨path, hne, hsub.cons relation, hmem⟩
    · rintro ⟨path, hne, hsub, hmem⟩
      cases hsub with
      | cons _ hsub => exact Or.inr ⟨path, hne, hsub, hmem⟩
      | cons_cons _ hsub =>
        rename_i path
        refine Or.inl ?_
        cases hc : edge.children relation with
        | none => simp [neighborsAt, hc] at hmem
        | some child =>
          rw [neighborsAt, hc, Option.elim_some] at hmem
          rw [Option.elim_some, List.mem_append, ih]
          by_cases hpath : path = []
          · subst hpath
            exact Or.inl hmem
          · exact Or.inr ⟨path, hpath, hsub, hmem⟩

theorem mem_relationIndexes {mask : RelationSet} {r : Nat} :
    r ∈ relationIndexes mask ↔ r ∈ mask := by
  rw [relationIndexes, List.mem_filter, List.mem_range, decide_eq_true_iff]
  refine and_iff_right_of_imp fun hr => Nat.lt_succ_of_le ?_
  exact Finset.le_sup (f := id) hr

theorem pairwise_relationIndexes (mask : RelationSet) : (relationIndexes mask).Pairwise (· < ·) :=
  List.pairwise_lt_range.filter _

theorem relationIndexes_inj {s t : RelationSet} : relationIndexes s = relationIndexes t ↔ s = t := by
  constructor
  · intro h
    ext r
    rw [← mem_relationIndexes, h, mem_relationIndexes]
  · exact fun h => h ▸ rfl

theorem relationIndexes_sublist {s t : RelationSet} :
    (relationIndexes s).Sublist (relationIndexes t) ↔ s ⊆ t := by
  constructor
  · intro h r hr
    exact mem_relationIndexes.1 (h.subset (mem_relationIndexes.2 hr))
  · intro h
    apply List.sublist_of_subperm_of_pairwise (r := (· ≤ ·))
    · exact List.subperm_of_subset (pairwise_relationIndexes s).nodup
        fun r hr => mem_relationIndexes.2 (h (mem_relationIndexes.1 hr))
    · exact (pairwise_relationIndexes s).imp le_of_lt
    · exact (pairwise_relationIndexes t).imp le_of_lt

/-! ## A graph of several edges -/

/-- An edge between two sets of relations, as `Build` registers it in both directions. -/
structure JoinEdge where
  left : RelationSet
  right : RelationSet
  filterInfo : Option JoinOrderFilterInfo

/-- The graph after the edges were registered one after the other. -/
def buildEdges (edges : List JoinEdge) (root : QueryEdge) : QueryEdge :=
  edges.foldl (fun root edge => createEdge edge.right edge.left edge.filterInfo
    (createEdge edge.left edge.right edge.filterInfo root)) root

/-- Some edge joins the two sets. -/
def Linked (edges : List JoinEdge) (left right : RelationSet) : Prop :=
  ∃ edge ∈ edges, (edge.left = left ∧ edge.right = right) ∨
    (edge.right = left ∧ edge.left = right)

theorem exists_mem_addNeighbor {right neighbor : RelationSet}
    {filterInfo : Option JoinOrderFilterInfo} {infos : List JoinOrderNeighborInfo} :
    (∃ info ∈ addNeighbor right filterInfo infos, info.neighbor = neighbor) ↔
      right = neighbor ∨ ∃ info ∈ infos, info.neighbor = neighbor := by
  induction infos with
  | nil => simp [addNeighbor]
  | cons info rest ih =>
    rw [addNeighbor]
    by_cases hinfo : info.neighbor = right
    · rw [if_pos hinfo]
      simp only [List.mem_cons, exists_eq_or_imp, hinfo, or_self_left]
    · rw [if_neg hinfo]
      simp only [List.mem_cons, exists_eq_or_imp, ih]
      exact or_left_comm

/-- What one call of `CreateEdge` adds. -/
theorem exists_neighborsAt_createEdge {left right node neighbor : RelationSet}
    {filterInfo : Option JoinOrderFilterInfo} {root : QueryEdge} :
    (∃ info ∈ neighborsAt (relationIndexes node) (createEdge left right filterInfo root),
        info.neighbor = neighbor) ↔
      (left = node ∧ right = neighbor) ∨
        ∃ info ∈ neighborsAt (relationIndexes node) root, info.neighbor = neighbor := by
  rw [createEdge, neighborsAt_createEdgeAt]
  by_cases hnode : relationIndexes node = relationIndexes left
  · rw [if_pos hnode, exists_mem_addNeighbor, relationIndexes_inj.1 hnode]
    simp only [true_and]
  · rw [if_neg hnode]
    have hne : left ≠ node := fun h => hnode (by rw [h])
    simp only [hne, false_and, false_or]

theorem exists_neighborsAt_buildEdges {edges : List JoinEdge} {root : QueryEdge}
    {node neighbor : RelationSet} :
    (∃ info ∈ neighborsAt (relationIndexes node) (buildEdges edges root),
        info.neighbor = neighbor) ↔
      Linked edges node neighbor ∨
        ∃ info ∈ neighborsAt (relationIndexes node) root, info.neighbor = neighbor := by
  induction edges generalizing root with
  | nil => simp [buildEdges, Linked]
  | cons edge rest ih =>
    have hstep := @ih (createEdge edge.right edge.left edge.filterInfo
      (createEdge edge.left edge.right edge.filterInfo root))
    refine hstep.trans ?_
    rw [exists_neighborsAt_createEdge, exists_neighborsAt_createEdge]
    simp only [Linked, List.mem_cons, exists_eq_or_imp]
    constructor
    · rintro (hrest | hback | hforth | hroot)
      · exact Or.inl (Or.inr hrest)
      · exact Or.inl (Or.inl (Or.inr hback))
      · exact Or.inl (Or.inl (Or.inl hforth))
      · exact Or.inr hroot
    · rintro (((hforth | hback) | hrest) | hroot)
      · exact Or.inr (Or.inr (Or.inl hforth))
      · exact Or.inr (Or.inl hback)
      · exact Or.inl hrest
      · exact Or.inr (Or.inr (Or.inr hroot))

/-- The trie is only ever walked along ascending indexes, and only such paths are registered. -/
theorem neighborsAt_buildEdges_eq_nil {edges : List JoinEdge} {root : QueryEdge} {path : List Nat}
    (hpath : ∀ mask, path ≠ relationIndexes mask) (hroot : neighborsAt path root = []) :
    neighborsAt path (buildEdges edges root) = [] := by
  induction edges generalizing root with
  | nil => exact hroot
  | cons edge rest ih =>
    have hcreate : ∀ (left right : RelationSet) (filterInfo : Option JoinOrderFilterInfo)
        (root : QueryEdge), neighborsAt path root = [] →
        neighborsAt path (createEdge left right filterInfo root) = [] := by
      intro left right filterInfo root hroot
      rw [createEdge, neighborsAt_createEdgeAt, if_neg (hpath left), hroot]
    exact ih (hcreate _ _ _ _ (hcreate _ _ _ _ hroot))

/-- **What a lookup finds**: the sets that an edge joins to a nonempty part of the node. -/
theorem exists_neighbor_iff {edges : List JoinEdge} {node neighbor : RelationSet} :
    (∃ info ∈ enumerateNeighbors (buildEdges edges empty) node, info.neighbor = neighbor) ↔
      ∃ left, left.Nonempty ∧ left ⊆ node ∧ Linked edges left neighbor := by
  constructor
  · rintro ⟨info, hinfo, hneighbor⟩
    obtain ⟨path, hne, hsub, hmem⟩ := (mem_enumerateNeighborsDFS _ _).1 hinfo
    by_cases hpath : ∀ mask, path ≠ relationIndexes mask
    · rw [neighborsAt_buildEdges_eq_nil hpath (neighborsAt_empty path)] at hmem
      exact nomatch hmem
    · push Not at hpath
      obtain ⟨left, rfl⟩ := hpath
      refine ⟨left, ?_, relationIndexes_sublist.1 hsub, ?_⟩
      · obtain ⟨r, hr⟩ := List.exists_mem_of_ne_nil _ hne
        exact ⟨r, mem_relationIndexes.1 hr⟩
      · refine (exists_neighborsAt_buildEdges.1 ⟨info, hmem, hneighbor⟩).resolve_right ?_
        rintro ⟨info', hmem', -⟩
        rw [neighborsAt_empty] at hmem'
        exact nomatch hmem'
  · rintro ⟨left, ⟨r, hr⟩, hsub, hlinked⟩
    obtain ⟨info, hmem, hneighbor⟩ : ∃ info ∈ neighborsAt (relationIndexes left)
        (buildEdges edges empty), info.neighbor = neighbor :=
      exists_neighborsAt_buildEdges.2 (Or.inl hlinked)
    refine ⟨info, (mem_enumerateNeighborsDFS _ _).2 ⟨relationIndexes left, ?_,
      relationIndexes_sublist.2 hsub, hmem⟩, hneighbor⟩
    exact List.ne_nil_of_mem (mem_relationIndexes.2 hr)

theorem mem_neighborMask {edges : List JoinEdge} {node exclusion : RelationSet} {r : Nat} :
    r ∈ neighborMask (buildEdges edges empty) node exclusion ↔
      r ∉ exclusion ∧ ∃ left right, left.Nonempty ∧ left ⊆ node ∧ Linked edges left right ∧
        lowestRelationIndex right = r := by
  rw [neighborMask, Finset.mem_filter, List.mem_toFinset, List.mem_map, and_comm]
  refine and_congr_right fun _ => ?_
  constructor
  · rintro ⟨info, hinfo, hlowest⟩
    obtain ⟨left, hne, hsub, hlinked⟩ := exists_neighbor_iff.1 ⟨info, hinfo, rfl⟩
    exact ⟨left, info.neighbor, hne, hsub, hlinked, hlowest⟩
  · rintro ⟨left, right, hne, hsub, hlinked, hlowest⟩
    obtain ⟨info, hinfo, hneighbor⟩ := exists_neighbor_iff.2 ⟨left, hne, hsub, hlinked⟩
    exact ⟨info, hinfo, hneighbor.symm ▸ hlowest⟩

/-- `GetConnections` is nonempty when an edge leads from one set into the other. -/
theorem getConnections_ne_nil {edges : List JoinEdge} {node other : RelationSet} :
    getConnections (buildEdges edges empty) node other ≠ [] ↔
      ∃ left right, left.Nonempty ∧ left ⊆ node ∧ right ⊆ other ∧ Linked edges left right := by
  rw [getConnections]
  constructor
  · intro h
    obtain ⟨info, hinfo⟩ := List.exists_mem_of_ne_nil _ h
    obtain ⟨hmem, hsub⟩ := List.mem_filter.1 hinfo
    obtain ⟨left, hne, hleft, hlinked⟩ := exists_neighbor_iff.1 ⟨info, hmem, rfl⟩
    exact ⟨left, info.neighbor, hne, hleft, of_decide_eq_true hsub, hlinked⟩
  · rintro ⟨left, right, hne, hleft, hright, hlinked⟩
    obtain ⟨info, hmem, rfl⟩ := exists_neighbor_iff.2 ⟨left, hne, hleft, hlinked⟩
    exact List.ne_nil_of_mem (List.mem_filter.2 ⟨hmem, decide_eq_true hright⟩)

theorem Linked.symm {edges : List JoinEdge} {left right : RelationSet}
    (h : Linked edges left right) : Linked edges right left := by
  obtain ⟨edge, hedge, hends⟩ := h
  exact ⟨edge, hedge, hends.symm.imp And.symm And.symm⟩

end QueryGraphEdges
end PgYaap
