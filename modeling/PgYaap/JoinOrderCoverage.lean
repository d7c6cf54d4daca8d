import Mathlib
import PgYaap.JoinEnumerationRun
import PgYaap.JoinOrderRewrite

/-! # When the join order search finds a plan

`FindJoinComponents` puts two relations together whenever some condition refers to both, while
`Build` makes edges only of the conditions whose two sides it knows. A component has a plan
when it can be `Assembled` along these edges (`optimizeJoinSubset_isSome_iff`), which an OR
condition alone does not allow. -/
namespace PgYaap
namespace JoinOrderRewrite

open LogicalPlan QueryGraphEdges JoinEnumeration DisjointSets

/-! ## Components -/

/-- Some condition that counts for the components refers to both relations. -/
def Shares (conditions : List JoinCondition) (a b : Nat) : Prop :=
  ∃ condition ∈ conditions, (condition.fromResidualPredicate = false ∧
    2 ≤ condition.relationMask.card) ∧ a ∈ condition.relationMask ∧ b ∈ condition.relationMask

/-- The relations that a chain of conditions connects. -/
def IsComponent (relationCount : Nat) (conditions : List JoinCondition)
    (component : RelationSet) : Prop :=
  ∃ r < relationCount, ∀ j, j ∈ component ↔
    j < relationCount ∧ Relation.EqvGen (Shares conditions) r j

theorem memberPairs_spec {l : List Nat} :
    (∀ pair ∈ memberPairs l, pair.1 ∈ l ∧ pair.2 ∈ l) ∧
      ∀ a ∈ l, ∀ b ∈ l, Relation.EqvGen (fun a b => (a, b) ∈ memberPairs l) a b := by
  cases l with
  | nil => exact ⟨fun _ h => absurd h List.not_mem_nil, fun _ h => absurd h List.not_mem_nil⟩
  | cons first rest =>
    constructor
    · intro pair hpair
      obtain ⟨member, hmember, rfl⟩ := List.mem_map.1 hpair
      exact ⟨List.mem_cons_self, List.mem_cons_of_mem first hmember⟩
    · have hfirst : ∀ a ∈ first :: rest,
          Relation.EqvGen (fun a b => (a, b) ∈ memberPairs (first :: rest)) first a := by
        intro a ha
        rcases List.mem_cons.1 ha with rfl | hrest
        · exact .refl a
        · exact .rel _ _ (List.mem_map.2 ⟨a, hrest, rfl⟩)
      exact fun a ha b hb => (hfirst a ha).symm.trans _ _ _ (hfirst b hb)

variable {relationCount : Nat} {conditions : List JoinCondition}

theorem mem_componentPairs {pair : Nat × Nat} :
    pair ∈ componentPairs relationCount conditions ↔ ∃ condition ∈ conditions,
      (condition.fromResidualPredicate = false ∧ 2 ≤ condition.relationMask.card) ∧
        pair ∈ memberPairs ((List.range relationCount).filter (· ∈ condition.relationMask)) := by
  rw [componentPairs, List.mem_flatMap]
  refine exists_congr fun condition => ?_
  rw [List.mem_filter, and_assoc, Bool.and_eq_true, Bool.not_eq_true', decide_eq_true_iff]

theorem mem_members {condition : JoinCondition} {r : Nat} :
    r ∈ (List.range relationCount).filter (· ∈ condition.relationMask) ↔
      r < relationCount ∧ r ∈ condition.relationMask := by
  rw [List.mem_filter, List.mem_range, decide_eq_true_iff]

/-- The unions generate what the conditions share. -/
theorem eqvGen_componentPairs
    (hmask : ∀ condition ∈ conditions, ∀ r ∈ condition.relationMask, r < relationCount)
    (a b : Nat) :
    Relation.EqvGen (fun a b => (a, b) ∈ componentPairs relationCount conditions) a b ↔
      Relation.EqvGen (Shares conditions) a b := by
  constructor
  · intro h
    refine Relation.EqvGen.mono (fun a b hab => ?_) _ _ h
    obtain ⟨condition, hmem, hcounts, hpair⟩ := mem_componentPairs.1 hab
    obtain ⟨ha, hb⟩ := memberPairs_spec.1 _ hpair
    exact ⟨condition, hmem, hcounts, (mem_members.1 ha).2, (mem_members.1 hb).2⟩
  · intro h
    induction h with
    | rel a b hab =>
      obtain ⟨condition, hmem, hcounts, ha, hb⟩ := hab
      have hgen := memberPairs_spec.2 a (mem_members.2 ⟨hmask condition hmem a ha, ha⟩) b
        (mem_members.2 ⟨hmask condition hmem b hb, hb⟩)
      refine Relation.EqvGen.mono (fun a b hab => ?_) _ _ hgen
      exact mem_componentPairs.2 ⟨condition, hmem, hcounts, hab⟩
    | refl a => exact .refl a
    | symm a b _ ih => exact ih.symm
    | trans a b c _ _ ih ih' => exact ih.trans _ _ _ ih'

theorem rootsFrom_eq {parent rank root : Nat → Nat} {relations : List Nat}
    (h : Rooted relationCount parent rank root) (hlt : ∀ idx ∈ relations, idx < relationCount) :
    rootsFrom relationCount relations parent = relations.map fun idx => (idx, root idx) := by
  induction relations generalizing parent with
  | nil => rfl
  | cons idx rest ih =>
    have hidx := hlt idx List.mem_cons_self
    obtain ⟨hroot, hnext⟩ := findRoot_spec h hidx (card_above_lt_size hidx)
    rw [rootsFrom, List.map_cons, ← hroot]
    exact congrArg _ (ih hnext fun idx' hidx' => hlt idx' (List.mem_cons_of_mem idx hidx'))

/-- **`FindJoinComponents`** gives the components. -/
theorem mem_findJoinComponents
    (hmask : ∀ condition ∈ conditions, ∀ r ∈ condition.relationMask, r < relationCount)
    {component : RelationSet} : component ∈ findJoinComponents relationCount conditions ↔
      IsComponent relationCount conditions component := by
  have hpairs : ∀ pair ∈ componentPairs relationCount conditions,
      pair.1 < relationCount ∧ pair.2 < relationCount := by
    intro pair hpair
    obtain ⟨condition, -, -, hmem⟩ := mem_componentPairs.1 hpair
    obtain ⟨ha, hb⟩ := memberPairs_spec.1 _ hmem
    exact ⟨(mem_members.1 ha).1, (mem_members.1 hb).1⟩
  obtain ⟨root, hrooted, hclasses⟩ := root_uniteAll_iff hpairs
  have hroots := rootsFrom_eq hrooted fun idx hidx => List.mem_range.1 hidx
  have hclass : ∀ key j, (j ∈ (((rootsFrom relationCount (List.range relationCount)
      (uniteAll relationCount (componentPairs relationCount conditions) singletons).parent).filter
        fun entry => entry.2 = key).map Prod.fst).toFinset) ↔ j < relationCount ∧ root j = key := by
    intro key j
    rw [hroots, List.mem_toFinset, List.mem_map]
    constructor
    · rintro ⟨entry, hentry, rfl⟩
      obtain ⟨hmem, hkey⟩ := List.mem_filter.1 hentry
      obtain ⟨idx, hidx, rfl⟩ := List.mem_map.1 hmem
      exact ⟨List.mem_range.1 hidx, of_decide_eq_true hkey⟩
    · rintro ⟨hj, hkey⟩
      exact ⟨(j, root j), List.mem_filter.2 ⟨List.mem_map.2 ⟨j, List.mem_range.2 hj, rfl⟩,
        decide_eq_true hkey⟩, rfl⟩
  have hsame : ∀ i j, root i = root j ↔ Relation.EqvGen (Shares conditions) i j := fun i j =>
    (hclasses i j).trans (eqvGen_componentPairs hmask i j)
  rw [findJoinComponents, List.mem_filter, List.mem_map]
  constructor
  · rintro ⟨⟨key, hkey, rfl⟩, hne⟩
    obtain ⟨r, hr⟩ := Finset.nonempty_iff_ne_empty.2 (of_decide_eq_true hne)
    obtain ⟨hlt, hroot⟩ := (hclass key r).1 hr
    refine ⟨r, hlt, fun j => (hclass key j).trans (and_congr_right fun _ => ?_)⟩
    rw [← hsame, hroot, eq_comm]
  · rintro ⟨r, hr, hcomponent⟩
    refine ⟨⟨root r, List.mem_range.2 (hrooted.root_lt r hr), ?_⟩, decide_eq_true ?_⟩
    · ext j
      rw [hclass, hcomponent, ← hsame, eq_comm]
    · exact Finset.nonempty_iff_ne_empty.1 ⟨r, (hcomponent r).2 ⟨hr, .refl r⟩⟩

/-! ## Edges -/

/-- The sides that `Build` knows for a condition within a set of relations. -/
def DerivedSides (subsetMask : RelationSet) (condition : JoinCondition) : Prop :=
  condition.fromResidualPredicate = false ∧ condition.leftRelationMask ∩ subsetMask ≠ ∅ ∧
    condition.rightRelationMask ∩ subsetMask ≠ ∅ ∧
    (condition.leftRelationMask ∩ subsetMask) ∩ (condition.rightRelationMask ∩ subsetMask) = ∅

/-- Each known side is one relation. -/
def SingleSides (subsetMask : RelationSet) (condition : JoinCondition) : Prop :=
  (condition.leftRelationMask ∩ subsetMask).card = 1 ∧
    (condition.rightRelationMask ∩ subsetMask).card = 1

/-- `Build` makes an edge of the condition, from one set to the other. -/
def EdgeOf (subsetMask : RelationSet) (condition : JoinCondition) (left right : RelationSet) :
    Prop :=
  2 ≤ (condition.relationMask ∩ subsetMask).card ∧ DerivedSides subsetMask condition ∧
    (SingleSides subsetMask condition ∧ left = condition.leftRelationMask ∩ subsetMask ∧
        right = condition.rightRelationMask ∩ subsetMask ∨
      ¬ SingleSides subsetMask condition ∧ left ⊆ condition.relationMask ∩ subsetMask ∧
        keptHalf (condition.relationMask ∩ subsetMask) left ∧
        right = (condition.relationMask ∩ subsetMask) \ left)

/-- Some edge has these two sides, in this order. -/
def HasEdge (edges : List JoinEdge) (left right : RelationSet) : Prop :=
  ∃ edge ∈ edges, edge.left = left ∧ edge.right = right

theorem mem_submasksDescending {relations : List Nat} {mask : RelationSet} :
    mask ∈ submasksDescending relations ↔ mask ⊆ relations.toFinset := by
  induction relations generalizing mask with
  | nil => rw [submasksDescending, List.mem_singleton, List.toFinset_nil, Finset.subset_empty]
  | cons r rest ih =>
    rw [submasksDescending, List.mem_append, List.mem_map, List.toFinset_cons,
      Finset.subset_insert_iff]
    constructor
    · rintro (⟨part, hpart, rfl⟩ | hmask)
      · exact (Finset.erase_insert_subset r part).trans (ih.1 hpart)
      · exact (Finset.erase_subset r mask).trans (ih.1 hmask)
    · intro hsub
      by_cases hr : r ∈ mask
      · exact Or.inl ⟨mask.erase r, ih.2 hsub, Finset.insert_erase hr⟩
      · rw [Finset.erase_eq_of_notMem hr] at hsub
        exact Or.inr (ih.2 hsub)

theorem hasEdge_append {edges : List JoinEdge} {edge : JoinEdge} {left right : RelationSet} :
    HasEdge (edges ++ [edge]) left right ↔
      HasEdge edges left right ∨ edge.left = left ∧ edge.right = right := by
  simp only [HasEdge, List.mem_append, List.mem_singleton, or_and_right, exists_or, exists_eq_left]

theorem hasEdge_emitFilter {condition : JoinCondition} {source target left right : RelationSet}
    {residual createEdge : Bool} {state : BuildState} :
    HasEdge (emitFilter condition source target residual createEdge state).edges left right ↔
      HasEdge state.edges left right ∨ createEdge = true ∧
        (source ≠ ∅ ∧ target ≠ ∅ ∧ source ∩ target = ∅) ∧ source = left ∧ target = right := by
  rw [emitFilter]
  by_cases hsides : source = ∅ ∨ target = ∅ ∨ source ∩ target ≠ ∅
  · rw [if_pos hsides]
    refine (or_iff_left ?_).symm
    rintro ⟨-, ⟨hsource, htarget, hdisj⟩, -⟩
    exact hsides.elim hsource fun h => h.elim htarget fun h => h hdisj
  · rw [if_neg hsides]
    rw [not_or, not_or, not_not] at hsides
    cases createEdge with
    | false => simp
    | true =>
      simp only [if_true, hasEdge_append, true_and]
      exact or_congr_right (and_iff_right hsides).symm

theorem hasEdge_foldl_emitFilter {condition : JoinCondition} {mask left right : RelationSet}
    {halves : List RelationSet} {state : BuildState} :
    HasEdge (halves.foldl (fun state half =>
        emitFilter condition half (mask \ half) false true state) state).edges left right ↔
      HasEdge state.edges left right ∨
        ∃ half ∈ halves, (half ≠ ∅ ∧ mask \ half ≠ ∅) ∧ half = left ∧ mask \ half = right := by
  induction halves generalizing state with
  | nil => simp
  | cons half rest ih =>
    rw [List.foldl_cons, ih, hasEdge_emitFilter, or_assoc, List.exists_mem_cons_iff]
    refine or_congr_right (or_congr_left ?_)
    simp only [true_and, Finset.inter_sdiff_self, and_true]

theorem keptHalf_iff {mask half : RelationSet} : keptHalf mask half = true ↔
    half ≠ ∅ ∧ half ≠ mask ∧ ¬ (mask \ half).sup id < half.sup id := decide_eq_true_iff

theorem hasEdge_buildCondition {subsetMask left right : RelationSet} {condition : JoinCondition}
    {state : BuildState} :
    HasEdge (buildCondition subsetMask state condition).edges left right ↔
      HasEdge state.edges left right ∨ EdgeOf subsetMask condition left right := by
  rw [buildCondition, EdgeOf]
  dsimp only
  by_cases hcard : (condition.relationMask ∩ subsetMask).card < 2
  · rw [if_pos hcard]
    exact (or_iff_left fun h => absurd h.1 (Nat.not_le.2 hcard)).symm
  rw [if_neg hcard]
  by_cases hresidual : condition.fromResidualPredicate = true ∨
      condition.leftRelationMask ∩ subsetMask = ∅ ∨ condition.rightRelationMask ∩ subsetMask = ∅ ∨
      (condition.leftRelationMask ∩ subsetMask) ∩ (condition.rightRelationMask ∩ subsetMask) ≠ ∅
  · -- a residual condition makes no edge
    rw [if_pos hresidual]
    have hnot : ¬ DerivedSides subsetMask condition := by
      rintro ⟨hflag, hleft, hright, hdisj⟩
      rcases hresidual with h | h | h | h
      · rw [hflag] at h
        exact nomatch h
      · exact hleft h
      · exact hright h
      · exact h hdisj
    refine Iff.trans ?_ (or_iff_left fun h => hnot h.2.1).symm
    split
    · rw [hasEdge_emitFilter]
      exact or_iff_left fun h => nomatch h.1
    · rw [hasEdge_emitFilter]
      exact or_iff_left fun h => nomatch h.1
  rw [if_neg hresidual]
  have hderived : DerivedSides subsetMask condition := by
    rw [not_or, not_or, not_or, not_not, Bool.not_eq_true] at hresidual
    exact hresidual
  by_cases hsingle : (condition.leftRelationMask ∩ subsetMask).card = 1 ∧
      (condition.rightRelationMask ∩ subsetMask).card = 1
  · rw [if_pos hsingle, hasEdge_emitFilter]
    refine or_congr_right ⟨?_, ?_⟩
    · rintro ⟨-, -, rfl, rfl⟩
      exact ⟨Nat.not_lt.1 hcard, hderived, Or.inl ⟨hsingle, rfl, rfl⟩⟩
    · rintro ⟨-, -, ⟨-, rfl, rfl⟩ | ⟨hnot, -⟩⟩
      · exact ⟨rfl, hderived.2, rfl, rfl⟩
      · exact absurd hsingle hnot
  · rw [if_neg hsingle, hasEdge_foldl_emitFilter]
    refine or_congr_right ⟨?_, ?_⟩
    · rintro ⟨half, hhalf, -, rfl, rfl⟩
      obtain ⟨hmem, hkept⟩ := List.mem_filter.1 hhalf
      refine ⟨Nat.not_lt.1 hcard, hderived, Or.inr ⟨hsingle, ?_, hkept, rfl⟩⟩
      intro r hr
      have hin := mem_submasksDescending.1 hmem hr
      rwa [List.mem_toFinset, List.mem_reverse, mem_relationIndexes] at hin
    · rintro ⟨-, -, ⟨hsingle', -⟩ | ⟨-, hsub, hkept, rfl⟩⟩
      · exact absurd hsingle' hsingle
      · obtain ⟨hne, hproper, -⟩ := keptHalf_iff.1 hkept
        refine ⟨left, List.mem_filter.2 ⟨mem_submasksDescending.2 fun r hr => ?_, hkept⟩,
          ⟨hne, fun hempty => hproper ?_⟩, rfl, rfl⟩
        · rw [List.mem_toFinset, List.mem_reverse, mem_relationIndexes]
          exact hsub hr
        · exact Finset.Subset.antisymm hsub (Finset.sdiff_eq_empty_iff_subset.1 hempty)

/-- **`Build`** makes the edges of its conditions. -/
theorem hasEdge_build {subsetMask left right : RelationSet} :
    HasEdge (build subsetMask conditions) left right ↔
      ∃ condition ∈ conditions, EdgeOf subsetMask condition left right := by
  have hloop : ∀ (conditions : List JoinCondition) (state : BuildState),
      HasEdge (conditions.foldl (buildCondition subsetMask) state).edges left right ↔
        HasEdge state.edges left right ∨
          ∃ condition ∈ conditions, EdgeOf subsetMask condition left right := by
    intro conditions
    induction conditions with
    | nil => exact fun state => by simp
    | cons condition rest ih =>
      intro state
      rw [List.foldl_cons, ih, hasEdge_buildCondition, or_assoc, List.exists_mem_cons_iff]
  refine (hloop conditions ⟨0, []⟩).trans (or_iff_right ?_)
  rintro ⟨edge, hedge, -⟩
  exact nomatch hedge

/-! ## The masks of the conditions -/

mutual

theorem extractExpressionMask_subset : (e : Expression) →
    extractExpressionMask e ⊆ e.referencedTables
  | .columnRef binding => by
    simp [extractExpressionMask, Expression.referencedTables, Expression.bindings]
  | .constant _ _ => Finset.empty_subset _
  | .function _ _ children => extractListMask_subset children
  | .aggregate _ _ _ children => extractListMask_subset children
  | .conjunction _ children => extractListMask_subset children
  | .subquery _ _ _ => Finset.empty_subset _
  | .opaqueExpr => Finset.empty_subset _

theorem extractListMask_subset : (es : List Expression) →
    extractListMask es ⊆ (Expression.bindingsList es).image ColumnBinding.tableIndex
  | [] => Finset.empty_subset _
  | e :: es => by
    rw [extractListMask, Expression.bindingsList, Finset.image_union]
    exact Finset.union_subset_union (extractExpressionMask_subset e) (extractListMask_subset es)

end

mutual

/-- The sides of a condition are tables that it refers to. -/
theorem tryExtractJoinSides_subset : (e : Expression) → {sides : Finset Nat × Finset Nat} →
    tryExtractJoinSides e = some sides → sides.1 ∪ sides.2 ⊆ e.referencedTables
  | .function _ _ [first, second], sides, h => by
    rw [tryExtractJoinSides] at h
    split at h
    · exact nomatch h
    · rw [Option.some.injEq] at h
      subst h
      refine Finset.union_subset (fun t ht => ?_) (fun t ht => ?_)
      · exact Finset.image_subset_image (Finset.subset_union_left)
          (extractExpressionMask_subset first ht)
      · refine Finset.image_subset_image (fun b hb => ?_) (extractExpressionMask_subset second ht)
        exact Finset.mem_union_right _ (Finset.mem_union_left _ hb)
  | .function _ _ [], _, h => nomatch h
  | .function _ _ [_], _, h => nomatch h
  | .function _ _ (_ :: _ :: _ :: _), _, h => nomatch h
  | .columnRef _, _, h => nomatch h
  | .constant _ _, _, h => nomatch h
  | .aggregate _ _ _ _, _, h => nomatch h
  | .subquery _ _ _, _, h => nomatch h
  | .opaqueExpr, _, h => nomatch h
  | .conjunction boolExprType children, sides, h => by
    rw [tryExtractJoinSides] at h
    split at h
    · exact nomatch h
    · obtain ⟨found, hfound, hout⟩ := Option.bind_eq_some_iff.1 h
      have hsub := aggregateSides_subset children none hfound
      split at hout
      · exact nomatch hout
      · rw [Option.some.injEq] at hout
        subst hout
        rwa [Option.elim_none, Finset.union_empty] at hsub

theorem aggregateSides_subset : (es : List Expression) →
    (aggregate : Option (Finset Nat × Finset Nat)) → {sides : Finset Nat × Finset Nat} →
    aggregateSides es aggregate = some sides → sides.1 ∪ sides.2 ⊆
      (Expression.bindingsList es).image ColumnBinding.tableIndex ∪
        aggregate.elim ∅ fun found => found.1 ∪ found.2
  | [], aggregate, sides, h => by
    rw [aggregateSides] at h
    subst h
    exact Finset.subset_union_right
  | e :: es, aggregate, sides, h => by
    rw [aggregateSides] at h
    obtain ⟨found, hfound, hout⟩ := Option.bind_eq_some_iff.1 h
    have hfirst := tryExtractJoinSides_subset e hfound
    rw [Expression.bindingsList, Finset.image_union]
    -- what is collected so far lies in the tables of the children so far
    have hcollect : ∀ next : Finset Nat × Finset Nat, aggregateSides es (some next) = some sides →
        next.1 ∪ next.2 ⊆ e.referencedTables ∪ (aggregate.elim ∅ fun found => found.1 ∪ found.2) →
        sides.1 ∪ sides.2 ⊆ (Finset.image ColumnBinding.tableIndex e.bindings ∪
          Finset.image ColumnBinding.tableIndex (Expression.bindingsList es)) ∪
            aggregate.elim ∅ fun found => found.1 ∪ found.2 := by
      intro next hnext hsub t ht
      rcases Finset.mem_union.1 (aggregateSides_subset es (some next) hnext ht) with hrest | hprev
      · exact Finset.mem_union_left _ (Finset.mem_union_right _ hrest)
      · rcases Finset.mem_union.1 (hsub hprev) with hhere | hold
        · exact Finset.mem_union_left _ (Finset.mem_union_left _ hhere)
        · exact Finset.mem_union_right _ hold
    cases aggregate with
    | none => exact hcollect found hout (hfirst.trans Finset.subset_union_left)
    | some old =>
      dsimp only at hout
      have hboth : (old.1 ∪ old.2) ∪ (found.1 ∪ found.2) ⊆
          e.referencedTables ∪ ((some old).elim ∅ fun found => found.1 ∪ found.2) :=
        Finset.union_subset Finset.subset_union_right (hfirst.trans Finset.subset_union_left)
      split at hout
      · refine hcollect _ hout (Finset.Subset.trans ?_ hboth)
        intro t ht
        simp only [Finset.mem_union] at ht ⊢
        tauto
      · split at hout
        · refine hcollect _ hout (Finset.Subset.trans ?_ hboth)
          intro t ht
          simp only [Finset.mem_union] at ht ⊢
          tauto
        · exact nomatch hout

end

theorem tableMaskToRelationMask_mono {relations : List (Finset Nat)} {s t : Finset Nat}
    (h : s ⊆ t) : tableMaskToRelationMask s relations ⊆ tableMaskToRelationMask t relations := by
  intro r hr
  obtain ⟨hlt, hne⟩ := Finset.mem_filter.1 hr
  exact Finset.mem_filter.2 ⟨hlt, hne.mono (Finset.inter_subset_inter_left h)⟩

/-- A condition as `ExtractJoinGraph` puts it on the list. -/
def Fresh (condition : JoinCondition) : Prop :=
  condition.leftRelationMask = ∅ ∧ condition.rightRelationMask = ∅ ∧
    condition.fromResidualPredicate = false

theorem fresh_filterConditions {e : Expression} {condition : JoinCondition}
    (h : condition ∈ filterConditions e) : Fresh condition := by
  have hone : ∀ e : Expression, condition ∈ [{ expression := e }] → Fresh condition := by
    intro e hmem
    rw [List.mem_singleton.1 hmem]
    exact ⟨rfl, rfl, rfl⟩
  cases e with
  | conjunction boolExprType children =>
    rw [filterConditions] at h
    split at h
    · obtain ⟨child, -, rfl⟩ := List.mem_map.1 h
      exact ⟨rfl, rfl, rfl⟩
    · exact hone _ h
  | columnRef binding => exact hone _ h
  | constant value isNull => exact hone _ h
  | function name oid children => exact hone _ h
  | aggregate name oid isDistinct children => exact hone _ h
  | subquery sublinkType name children => exact hone _ h
  | opaqueExpr => exact hone _ h

theorem fresh_extractJoinGraph {tree : JoinTree} {condition : JoinCondition}
    (h : condition ∈ (extractJoinGraph tree).2) : Fresh condition := by
  induction tree with
  | relation outputTables => exact nomatch h
  | crossProduct left right ihleft ihright =>
    rw [extractJoinGraph] at h
    exact (List.mem_append.1 h).elim ihleft ihright
  | comparisonJoin joinType invertResult conditions left right ihleft ihright =>
    rw [extractJoinGraph] at h
    rcases List.mem_append.1 h with h | h
    · rcases List.mem_append.1 h with h | h
      · obtain ⟨e, -, rfl⟩ := List.mem_map.1 h
        exact ⟨rfl, rfl, rfl⟩
      · exact ihleft h
    · exact ihright h
  | filter expressions child ih =>
    rw [extractJoinGraph] at h
    rcases List.mem_append.1 h with h | h
    · obtain ⟨e, -, he⟩ := List.mem_flatMap.1 h
      exact fresh_filterConditions he
    · exact ih h

/-- What the masks of a join condition have in common. -/
structure WellMasked (relationCount : Nat) (condition : JoinCondition) : Prop where
  counts : condition.fromResidualPredicate = false ∧ 2 ≤ condition.relationMask.card
  lt : ∀ r ∈ condition.relationMask, r < relationCount
  left : condition.leftRelationMask ⊆ condition.relationMask
  right : condition.rightRelationMask ⊆ condition.relationMask

theorem wellMasked_joinConditions {tree : JoinTree} {condition : JoinCondition}
    (h : condition ∈ joinConditions tree) :
    WellMasked (extractJoinGraph tree).1.length condition := by
  obtain ⟨hmem, hcard⟩ := List.mem_filter.1 h
  obtain ⟨fresh, hfresh, rfl⟩ := List.mem_map.1 hmem
  obtain ⟨hleft, hright, hflag⟩ := fresh_extractJoinGraph hfresh
  have hlt : ∀ mask, ∀ r ∈ tableMaskToRelationMask mask (extractJoinGraph tree).1,
      r < (extractJoinGraph tree).1.length := fun mask r hr =>
    Finset.mem_range.1 (Finset.mem_filter.1 hr).1
  have hcard := of_decide_eq_true hcard
  cases hsides : tryExtractJoinSides fresh.expression with
  | none =>
    have hresolved : resolveMasks (extractJoinGraph tree).1 fresh = { fresh with
        relationMask := referencedRelationMask fresh.expression (extractJoinGraph tree).1 } := by
      simp only [resolveMasks, hsides]
    rw [hresolved] at hcard ⊢
    exact ⟨⟨hflag, hcard⟩, hlt _, hleft ▸ Finset.empty_subset _, hright ▸ Finset.empty_subset _⟩
  | some sides =>
    have hsub := tryExtractJoinSides_subset fresh.expression hsides
    have hresolved : resolveMasks (extractJoinGraph tree).1 fresh = { fresh with
        relationMask := referencedRelationMask fresh.expression (extractJoinGraph tree).1
        leftTableMask := sides.1
        rightTableMask := sides.2
        leftRelationMask := tableMaskToRelationMask sides.1 (extractJoinGraph tree).1
        rightRelationMask := tableMaskToRelationMask sides.2 (extractJoinGraph tree).1 } := by
      simp only [resolveMasks, hsides]
    rw [hresolved] at hcard ⊢
    exact ⟨⟨hflag, hcard⟩, hlt _,
      tableMaskToRelationMask_mono (Finset.subset_union_left.trans hsub),
      tableMaskToRelationMask_mono (Finset.subset_union_right.trans hsub)⟩

/-! ## Assembling a component -/

/-- The condition joins two disjoint sets: both its sides are known, and they are one relation
each, one in either set; or its relations are divided between the two sets. -/
def Separates (condition : JoinCondition) (left right : RelationSet) : Prop :=
  (condition.leftRelationMask ≠ ∅ ∧ condition.rightRelationMask ≠ ∅ ∧
      condition.leftRelationMask ∩ condition.rightRelationMask = ∅) ∧
    if condition.leftRelationMask.card = 1 ∧ condition.rightRelationMask.card = 1 then
      (condition.leftRelationMask ⊆ left ∧ condition.rightRelationMask ⊆ right) ∨
        (condition.leftRelationMask ⊆ right ∧ condition.rightRelationMask ⊆ left)
    else condition.relationMask ⊆ left ∪ right ∧ ¬ Disjoint condition.relationMask left ∧
      ¬ Disjoint condition.relationMask right

/-- What single relations can be put together to, two disjoint sets at a time, with a condition
that joins the two. -/
inductive Assembled (conditions : List JoinCondition) : RelationSet → Prop
  | relation (r : Nat) : Assembled conditions {r}
  | join {left right : RelationSet} (hleft : Assembled conditions left)
      (hright : Assembled conditions right) (hdisj : Disjoint left right)
      (hjoins : ∃ condition ∈ conditions, Separates condition left right) :
      Assembled conditions (left ∪ right)

/-- A condition lies in a component or outside. -/
theorem subset_or_disjoint {component : RelationSet} {condition : JoinCondition}
    (hcomponent : IsComponent relationCount conditions component) (hmem : condition ∈ conditions)
    (hmask : WellMasked relationCount condition) :
    condition.relationMask ⊆ component ∨ Disjoint condition.relationMask component := by
  obtain ⟨r, -, hclass⟩ := hcomponent
  by_cases hmeets : ∃ a ∈ condition.relationMask, a ∈ component
  · obtain ⟨a, ha, hac⟩ := hmeets
    refine Or.inl fun b hb => (hclass b).2 ⟨hmask.lt b hb, ?_⟩
    exact ((hclass a).1 hac).2.trans _ _ _ (.rel _ _ ⟨condition, hmem, hmask.counts, ha, hb⟩)
  · push Not at hmeets
    exact Or.inr (Finset.disjoint_left.2 hmeets)

/-- Within a component, the edges of a condition join what the condition separates. -/
theorem edgeOf_iff_separates {component left right : RelationSet} {condition : JoinCondition}
    (hmask : WellMasked relationCount condition)
    (hcomponent : condition.relationMask ⊆ component ∨ Disjoint condition.relationMask component)
    (hleft : left ⊆ component) (hright : right ⊆ component) (hdisj : Disjoint left right) :
    (∃ part part', EdgeOf component condition part part' ∧
      ((part ⊆ left ∧ part' ⊆ right) ∨ (part' ⊆ left ∧ part ⊆ right))) ↔
      Separates condition left right := by
  rcases hcomponent with hin | hout
  · have hmaskIn : condition.relationMask ∩ component = condition.relationMask :=
      Finset.inter_eq_left.2 hin
    have hleftIn : condition.leftRelationMask ∩ component = condition.leftRelationMask :=
      Finset.inter_eq_left.2 (hmask.left.trans hin)
    have hrightIn : condition.rightRelationMask ∩ component = condition.rightRelationMask :=
      Finset.inter_eq_left.2 (hmask.right.trans hin)
    simp only [EdgeOf, DerivedSides, SingleSides, hmaskIn, hleftIn, hrightIn, Separates]
    constructor
    · rintro ⟨part, part', ⟨-, ⟨-, hsides⟩, hedge⟩, hends⟩
      refine ⟨hsides, ?_⟩
      rcases hedge with ⟨hsingle, rfl, rfl⟩ | ⟨hsingle, hpart, hkept, rfl⟩
      · rw [if_pos hsingle]
        exact hends.imp_right And.symm
      · -- the two halves are all of the condition
        rw [if_neg hsingle]
        obtain ⟨hne, hproper, -⟩ := keptHalf_iff.1 hkept
        have hrest : condition.relationMask \ part ≠ ∅ := fun hempty =>
          hproper (Finset.Subset.antisymm hpart (Finset.sdiff_eq_empty_iff_subset.1 hempty))
        have hmeets : ∀ {piece side : RelationSet}, piece ≠ ∅ → piece ⊆ condition.relationMask →
            piece ⊆ side → ¬ Disjoint condition.relationMask side := by
          intro piece side hpiece hsub hside hapart
          obtain ⟨r, hr⟩ := Finset.nonempty_iff_ne_empty.2 hpiece
          exact Finset.disjoint_left.1 hapart (hsub hr) (hside hr)
        have hall : condition.relationMask = part ∪ (condition.relationMask \ part) :=
          (Finset.union_sdiff_of_subset hpart).symm
        rcases hends with ⟨hl, hr⟩ | ⟨hl, hr⟩
        · refine ⟨?_, hmeets hne hpart hl, hmeets hrest Finset.sdiff_subset hr⟩
          rw [hall]
          exact Finset.union_subset_union hl hr
        · refine ⟨?_, hmeets hrest Finset.sdiff_subset hl, hmeets hne hpart hr⟩
          rw [hall, Finset.union_comm]
          exact Finset.union_subset_union hl hr
    · rintro ⟨hsides, hends⟩
      by_cases hsingle : condition.leftRelationMask.card = 1 ∧ condition.rightRelationMask.card = 1
      · rw [if_pos hsingle] at hends
        exact ⟨_, _, ⟨hmask.counts.2, ⟨hmask.counts.1, hsides⟩, Or.inl ⟨hsingle, rfl, rfl⟩⟩,
          hends.imp_right And.symm⟩
      · rw [if_neg hsingle] at hends
        obtain ⟨hcover, hmeetsLeft, hmeetsRight⟩ := hends
        -- the half in one set leaves the half in the other
        have hhalf : ∀ {side other : RelationSet}, condition.relationMask ⊆ side ∪ other →
            Disjoint side other → condition.relationMask \ (condition.relationMask ∩ side) =
              condition.relationMask ∩ other := by
          intro side other hcover hapart
          ext r
          simp only [Finset.mem_sdiff, Finset.mem_inter, not_and]
          constructor
          · rintro ⟨hr, hnot⟩
            exact ⟨hr, (Finset.mem_union.1 (hcover hr)).resolve_left (hnot hr)⟩
          · rintro ⟨hr, hother⟩
            exact ⟨hr, fun _ hside => Finset.disjoint_left.1 hapart hside hother⟩
        have hne : ∀ {side : RelationSet}, ¬ Disjoint condition.relationMask side →
            condition.relationMask ∩ side ≠ ∅ := fun hmeets hempty =>
          hmeets (Finset.disjoint_iff_inter_eq_empty.2 hempty)
        have hkept : ∀ {side other : RelationSet}, condition.relationMask ⊆ side ∪ other →
            Disjoint side other → ¬ Disjoint condition.relationMask side →
            ¬ Disjoint condition.relationMask other →
            (condition.relationMask ∩ side).sup id ≤ (condition.relationMask ∩ other).sup id →
            EdgeOf component condition (condition.relationMask ∩ side)
              (condition.relationMask ∩ other) := by
          intro side other hcover hapart hmeets hmeets' hle
          refine ⟨hmaskIn.symm ▸ hmask.counts.2,
            ⟨hmask.counts.1, by rwa [hleftIn, hrightIn]⟩, Or.inr ⟨?_, ?_, ?_, ?_⟩⟩
          · rwa [SingleSides, hleftIn, hrightIn]
          · rw [hmaskIn]
            exact Finset.inter_subset_left
          · rw [hmaskIn, keptHalf_iff, hhalf hcover hapart]
            refine ⟨hne hmeets, fun hall => hne hmeets' ?_, Nat.not_lt.2 hle⟩
            rw [← hhalf hcover hapart, hall, Finset.sdiff_self]
          · rw [hmaskIn, hhalf hcover hapart]
        simp only [EdgeOf, DerivedSides, SingleSides, hmaskIn, hleftIn, hrightIn] at hkept
        rcases le_total ((condition.relationMask ∩ left).sup id)
          ((condition.relationMask ∩ right).sup id) with hle | hle
        · exact ⟨_, _, hkept hcover hdisj hmeetsLeft hmeetsRight hle,
            Or.inl ⟨Finset.inter_subset_right, Finset.inter_subset_right⟩⟩
        · exact ⟨_, _, hkept (Finset.union_comm left right ▸ hcover) hdisj.symm hmeetsRight
            hmeetsLeft hle, Or.inr ⟨Finset.inter_subset_right, Finset.inter_subset_right⟩⟩
  · -- a condition outside the component makes no edge in it and joins nothing
    refine iff_of_false ?_ ?_
    · rintro ⟨part, part', ⟨hcard, -⟩, -⟩
      rw [Finset.disjoint_iff_inter_eq_empty.1 hout, Finset.card_empty] at hcard
      exact absurd hcard (by decide)
    · rintro ⟨⟨hne, -, -⟩, hends⟩
      obtain ⟨r, hr⟩ := Finset.nonempty_iff_ne_empty.2 hne
      have hnot : ∀ side ⊆ component, ¬ condition.leftRelationMask ⊆ side := fun side hside hsub =>
        Finset.disjoint_left.1 hout (hmask.left hr) (hside (hsub hr))
      split at hends
      · rcases hends with ⟨hsub, -⟩ | ⟨hsub, -⟩
        · exact hnot left hleft hsub
        · exact hnot right hright hsub
      · exact hends.2.1 (Finset.disjoint_of_subset_right hleft hout)

/-- The graph of a component. -/
def componentGraph (relationCount : Nat) (conditions : List JoinCondition)
    (component : RelationSet) (hlt : ∀ r ∈ component, r < relationCount) : QueryGraph where
  relationCount := relationCount
  subsetMask := component
  subset_lt := hlt
  edges := build component conditions
  edges_mem edge hedge := by
    obtain ⟨condition, -, -, ⟨-, hleft, hright, -⟩, hends⟩ :=
      hasEdge_build.1 ⟨edge, hedge, rfl, rfl⟩
    rcases hends with ⟨-, heq, heq'⟩ | ⟨-, hsub, hkept, heq'⟩
    · rw [heq, heq', Finset.nonempty_iff_ne_empty, Finset.nonempty_iff_ne_empty]
      exact ⟨⟨hleft, Finset.inter_subset_right⟩, hright, Finset.inter_subset_right⟩
    · obtain ⟨hne, hproper, -⟩ := keptHalf_iff.1 hkept
      rw [heq', Finset.nonempty_iff_ne_empty, Finset.nonempty_iff_ne_empty]
      refine ⟨⟨hne, hsub.trans Finset.inter_subset_right⟩, fun hempty => hproper ?_,
        Finset.sdiff_subset.trans Finset.inter_subset_right⟩
      exact Finset.Subset.antisymm hsub (Finset.sdiff_eq_empty_iff_subset.1 hempty)

theorem joins_componentGraph {component left right : RelationSet}
    {hlt : ∀ r ∈ component, r < relationCount} :
    (componentGraph relationCount conditions component hlt).Joins left right ↔
      ∃ condition ∈ conditions, ∃ part part', EdgeOf component condition part part' ∧
        ((part ⊆ left ∧ part' ⊆ right) ∨ (part' ⊆ left ∧ part ⊆ right)) := by
  constructor
  · rintro ⟨part, part', hpart, hpart', edge, hedge, ⟨hl, hr⟩ | ⟨hl, hr⟩⟩
    · obtain ⟨condition, hmem, hof⟩ := hasEdge_build.1 ⟨edge, hedge, hl, hr⟩
      exact ⟨condition, hmem, part, part', hof, Or.inl ⟨hpart, hpart'⟩⟩
    · obtain ⟨condition, hmem, hof⟩ := hasEdge_build.1 ⟨edge, hedge, hr, hl⟩
      exact ⟨condition, hmem, part', part, hof, Or.inr ⟨hpart, hpart'⟩⟩
  · rintro ⟨condition, hmem, part, part', hof, hends⟩
    obtain ⟨edge, hedge, rfl, rfl⟩ := hasEdge_build.2 ⟨condition, hmem, hof⟩
    rcases hends with ⟨hl, hr⟩ | ⟨hl, hr⟩
    · exact ⟨_, _, hl, hr, edge, hedge, Or.inl ⟨rfl, rfl⟩⟩
    · exact ⟨_, _, hl, hr, edge, hedge, Or.inr ⟨rfl, rfl⟩⟩

/-- Within a component, what can be planned is what can be assembled. -/
theorem plannable_iff_assembled {component mask : RelationSet}
    {hlt : ∀ r ∈ component, r < relationCount}
    (hcomponent : IsComponent relationCount conditions component)
    (hmasks : ∀ condition ∈ conditions, WellMasked relationCount condition)
    (hsub : mask ⊆ component) :
    (componentGraph relationCount conditions component hlt).Plannable mask ↔
      Assembled conditions mask := by
  have hjoins : ∀ {left right : RelationSet}, left ⊆ component → right ⊆ component →
      Disjoint left right →
      ((componentGraph relationCount conditions component hlt).Joins left right ↔
        ∃ condition ∈ conditions, Separates condition left right) := by
    intro left right hleft hright hdisj
    rw [joins_componentGraph]
    refine exists_congr fun condition => and_congr_right fun hmem => ?_
    exact edgeOf_iff_separates (hmasks condition hmem)
      (subset_or_disjoint hcomponent hmem (hmasks condition hmem)) hleft hright hdisj
  constructor
  · intro h
    induction h with
    | leaf hr => exact .relation _
    | join hleft hright hdisj hedge ihleft ihright =>
      have hl := Finset.subset_union_left.trans hsub
      have hr := Finset.subset_union_right.trans hsub
      exact .join (ihleft hl) (ihright hr) hdisj ((hjoins hl hr hdisj).1 hedge)
  · intro h
    induction h with
    | relation r => exact .leaf (hsub (Finset.mem_singleton_self r))
    | join hleft hright hdisj hseparates ihleft ihright =>
      have hl := Finset.subset_union_left.trans hsub
      have hr := Finset.subset_union_right.trans hsub
      exact .join (ihleft hl) (ihright hr) hdisj ((hjoins hl hr hdisj).2 hseparates)

/-! ## When `Rewrite` finds a plan -/

variable {Cost Stats : Type} (model : JoinOrderCostModel Cost Stats) (cardinality : Nat → Nat)
  (stats : Nat → Stats)

/-- **One component** has a plan when it can be assembled. -/
theorem optimizeJoinSubset_isSome_iff {component : RelationSet}
    (hcomponent : IsComponent relationCount conditions component)
    (hmasks : ∀ condition ∈ conditions, WellMasked relationCount condition) :
    (optimizeJoinSubset model cardinality stats relationCount conditions component).isSome ↔
      Assembled conditions component := by
  obtain ⟨r, hr, hclass⟩ := hcomponent
  have hlt : ∀ j ∈ component, j < relationCount := fun j hj => ((hclass j).1 hj).1
  have hmem : r ∈ component := (hclass r).2 ⟨hr, .refl r⟩
  rw [optimizeJoinSubset]
  by_cases hcard : component.card < 2
  · rw [if_pos hcard]
    have hone : component.card = 1 :=
      le_antisymm (Nat.le_of_lt_succ hcard) (Finset.card_pos.2 ⟨r, hmem⟩)
    obtain ⟨r', rfl⟩ := Finset.card_eq_one.1 hone
    exact iff_of_true rfl (.relation r')
  · rw [if_neg hcard]
    obtain ⟨final, hrun, hplans⟩ := QueryGraph.plans_solve_iff
      (componentGraph relationCount conditions component hlt) model cardinality stats
    have hfull := (hplans component).trans
      (plannable_iff_assembled ⟨r, hr, hclass⟩ hmasks (Finset.Subset.refl component))
    refine Iff.trans ?_ hfull
    refine (Iff.of_eq (congrArg (fun run => ((run.bind fun final =>
      (final.plans component).map ComponentPlan.joined).isSome : Prop)) hrun)).trans ?_
    rw [Option.bind_some, Option.isSome_map, Option.isSome_iff_ne_none]

theorem mapM_isSome_iff {α β : Type} {f : α → Option β} {l : List α} :
    (l.mapM f).isSome ↔ ∀ x ∈ l, (f x).isSome := by
  induction l with
  | nil => simp
  | cons x rest ih =>
    rw [List.mapM_cons, List.forall_mem_cons, ← ih]
    cases f x with
    | none => simp
    | some y =>
      cases rest.mapM f with
      | none => simp
      | some ys => simp

/-- Costs that tell nothing apart. -/
def noCosts : JoinOrderCostModel Unit Unit where
  estimateCardinality _ _ _ _ := 0
  computeCost _ _ _ _ := ()
  combineStats _ _ _ _ _ := ()
  getDPStatsCardinality _ _ := 0
  zeroCost := ()
  costLess _ _ := false
  costEqual _ _ := true

def columnEquality (left right : ColumnBinding) : Expression :=
  .function "=" 96 [.columnRef left, .columnRef right]

/-- `a.x = b.x` over `a` and `b`. -/
def equalityJoin : JoinTree :=
  .filter [columnEquality ⟨0, 0⟩ ⟨1, 0⟩] (.crossProduct (.relation {0}) (.relation {1}))

/-- `a.x = b.x OR a.y = b.y` over `a` and `b`. -/
def orJoin : JoinTree :=
  .filter [.conjunction 1 [columnEquality ⟨0, 0⟩ ⟨1, 0⟩, columnEquality ⟨0, 1⟩ ⟨1, 1⟩]]
    (.crossProduct (.relation {0}) (.relation {1}))

end JoinOrderRewrite
end PgYaap
