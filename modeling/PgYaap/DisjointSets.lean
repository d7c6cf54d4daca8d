import Mathlib

/-! # Disjoint sets with ranks and path compression

A forest over the numbers below `size`: each points to its parent, a root to itself. The
invariant `Rooted` carries the root of every number along, so that neither the compression
nor a walk in the forest shows in the results: `unite_rooted` says which classes a union
leaves, `root_uniteAll_iff` which classes many unions leave. -/
namespace PgYaap
namespace DisjointSets

structure Forest where
  parent : Nat → Nat
  rank : Nat → Nat

/-- Every number alone. -/
def singletons : Forest := ⟨id, fun _ => 0⟩

/-- The root of a number, and the parents after the numbers on the way point to it. -/
def findRoot : Nat → (Nat → Nat) → Nat → Nat × (Nat → Nat)
  | 0, parent, i => (i, parent)
  | fuel + 1, parent, i =>
    if parent i = i then (i, parent)
    else
      let found := findRoot fuel parent (parent i)
      (found.1, Function.update found.2 i found.1)

/-- Union by rank. -/
def unite (size : Nat) (forest : Forest) (left right : Nat) : Forest :=
  let foundLeft := findRoot size forest.parent left
  let foundRight := findRoot size foundLeft.2 right
  if foundLeft.1 = foundRight.1 then { forest with parent := foundRight.2 }
  else
    let swap := forest.rank foundLeft.1 < forest.rank foundRight.1
    let leftRoot := if swap then foundRight.1 else foundLeft.1
    let rightRoot := if swap then foundLeft.1 else foundRight.1
    { parent := Function.update foundRight.2 rightRoot leftRoot
      rank := if forest.rank leftRoot = forest.rank rightRoot then
        Function.update forest.rank leftRoot (forest.rank leftRoot + 1) else forest.rank }

/-- Unions one after the other. -/
def uniteAll (size : Nat) (pairs : List (Nat × Nat)) (forest : Forest) : Forest :=
  pairs.foldl (fun forest pair => unite size forest pair.1 pair.2) forest

/-! ## The invariant -/

/-- `root` gives the roots of the forest, whose ranks grow towards them. -/
structure Rooted (size : Nat) (parent rank root : Nat → Nat) : Prop where
  parent_lt : ∀ i < size, parent i < size
  root_parent : ∀ i < size, root (parent i) = root i
  root_of_fixed : ∀ i < size, parent i = i → root i = i
  root_lt : ∀ i < size, root i < size
  root_fixed : ∀ i < size, parent (root i) = root i
  rank_lt : ∀ i < size, parent i ≠ i → rank i < rank (parent i)
  rank_le : ∀ i < size, rank i ≤ rank (root i)

variable {size : Nat} {parent rank root : Nat → Nat}

theorem singletons_rooted (size : Nat) :
    Rooted size singletons.parent singletons.rank id :=
  ⟨fun _ h => h, fun _ _ => rfl, fun _ _ _ => rfl, fun _ h => h, fun _ _ => rfl,
    fun _ _ h => absurd rfl h, fun _ _ => le_refl _⟩

/-- The numbers that a walk from `i` can still come to. -/
def above (size : Nat) (rank : Nat → Nat) (i : Nat) : Finset Nat :=
  (Finset.range size).filter fun j => rank i < rank j

theorem card_above_lt (h : Rooted size parent rank root) {i : Nat} (hi : i < size)
    (hstep : parent i ≠ i) : (above size rank (parent i)).card < (above size rank i).card := by
  apply Finset.card_lt_card
  refine Finset.ssubset_iff_of_subset ?_ |>.2 ⟨parent i, ?_, ?_⟩
  · intro j hj
    obtain ⟨hmem, hlt⟩ := Finset.mem_filter.1 hj
    exact Finset.mem_filter.2 ⟨hmem, (h.rank_lt i hi hstep).trans hlt⟩
  · exact Finset.mem_filter.2 ⟨Finset.mem_range.2 (h.parent_lt i hi), h.rank_lt i hi hstep⟩
  · intro hmem
    exact lt_irrefl _ (Finset.mem_filter.1 hmem).2

theorem card_above_lt_size {i : Nat} (hi : i < size) : (above size rank i).card < size := by
  have hlt : above size rank i ⊂ Finset.range size := by
    refine Finset.ssubset_iff_of_subset (Finset.filter_subset _ _) |>.2
      ⟨i, Finset.mem_range.2 hi, fun hmem => ?_⟩
    exact lt_irrefl _ (Finset.mem_filter.1 hmem).2
  exact (Finset.card_lt_card hlt).trans_eq (Finset.card_range size)

/-- Pointing a number at its root changes no root. -/
theorem rooted_compress (h : Rooted size parent rank root) {i : Nat} (hi : i < size)
    (hstep : parent i ≠ i) : Rooted size (Function.update parent i (root i)) rank root := by
  have hself : ∀ j < size, root (root j) = root j := fun j hj =>
    h.root_of_fixed _ (h.root_lt j hj) (h.root_fixed j hj)
  have hnot : root i ≠ i := fun heq => hstep (heq ▸ h.root_fixed i hi)
  refine ⟨fun j hj => ?_, fun j hj => ?_, fun j hj hfix => ?_, h.root_lt, fun j hj => ?_,
    fun j hj hne => ?_, h.rank_le⟩
  · by_cases heq : j = i
    · rw [heq, Function.update_self]
      exact h.root_lt i hi
    · rw [Function.update_of_ne heq]
      exact h.parent_lt j hj
  · by_cases heq : j = i
    · rw [heq, Function.update_self]
      exact hself i hi
    · rw [Function.update_of_ne heq]
      exact h.root_parent j hj
  · by_cases heq : j = i
    · rw [heq, Function.update_self] at hfix
      exact absurd hfix hnot
    · rw [Function.update_of_ne heq] at hfix
      exact h.root_of_fixed j hj hfix
  · have hne : root j ≠ i := fun heq => hstep (heq ▸ h.root_fixed j hj)
    rw [Function.update_of_ne hne]
    exact h.root_fixed j hj
  · by_cases heq : j = i
    · rw [heq, Function.update_self] at hne ⊢
      refine (h.rank_lt i hi hstep).trans_le ?_
      have hle := h.rank_le (parent i) (h.parent_lt i hi)
      rwa [h.root_parent i hi] at hle
    · rw [Function.update_of_ne heq] at hne ⊢
      exact h.rank_lt j hj hne

/-- **Find** gives the root and leaves every root as it was. -/
theorem findRoot_spec (h : Rooted size parent rank root) {fuel i : Nat} (hi : i < size)
    (hfuel : (above size rank i).card < fuel) : (findRoot fuel parent i).1 = root i ∧
      Rooted size (findRoot fuel parent i).2 rank root := by
  induction fuel generalizing i with
  | zero => exact absurd hfuel (Nat.not_lt_zero _)
  | succ fuel ih =>
    rw [findRoot]
    by_cases hstep : parent i = i
    · rw [if_pos hstep]
      exact ⟨(h.root_of_fixed i hi hstep).symm, h⟩
    · rw [if_neg hstep]
      obtain ⟨hroot, hrooted⟩ := ih (h.parent_lt i hi)
        ((card_above_lt h hi hstep).trans_le (Nat.le_of_lt_succ hfuel))
      rw [h.root_parent i hi] at hroot
      dsimp only
      rw [hroot]
      refine ⟨rfl, rooted_compress hrooted hi fun hfix => ?_⟩
      have heq := hrooted.root_of_fixed i hi hfix
      exact hstep (heq ▸ h.root_fixed i hi)

/-- Pointing one root at another merges their classes. -/
theorem rooted_link (h : Rooted size parent rank root) {top bottom : Nat} (htop : top < size)
    (hrootTop : root top = top) (hrootBottom : root bottom = bottom)
    (hne : top ≠ bottom) {rank' : Nat → Nat} (hless : rank bottom < rank' top)
    (hle : rank top ≤ rank' top) (hrank : ∀ i, i ≠ top → rank' i = rank i) :
    Rooted size (Function.update parent bottom top) rank'
      (fun i => if root i = bottom then top else root i) := by
  have hfixTop : parent top = top := hrootTop ▸ h.root_fixed top htop
  have hrankLe : ∀ i, rank i ≤ rank' i := by
    intro i
    by_cases hi : i = top
    · exact hi ▸ hle
    · exact (hrank i hi).ge
  refine ⟨fun i hi => ?_, fun i hi => ?_, fun i hi hfix => ?_, fun i hi => ?_, fun i hi => ?_,
    fun i hi hstep => ?_, fun i hi => ?_⟩
  · by_cases heq : i = bottom
    · rw [heq, Function.update_self]
      exact htop
    · rw [Function.update_of_ne heq]
      exact h.parent_lt i hi
  · by_cases heq : i = bottom
    · rw [heq, Function.update_self]
      simp only [hrootTop, if_neg hne, hrootBottom, if_pos]
    · rw [Function.update_of_ne heq]
      simp only [h.root_parent i hi]
  · by_cases heq : i = bottom
    · rw [heq, Function.update_self] at hfix
      exact absurd hfix hne
    · rw [Function.update_of_ne heq] at hfix
      have hroot := h.root_of_fixed i hi hfix
      simp only [hroot, if_neg heq]
  · by_cases heq : root i = bottom
    · simp only [if_pos heq]
      exact htop
    · simp only [if_neg heq]
      exact h.root_lt i hi
  · by_cases heq : root i = bottom
    · simp only [if_pos heq]
      rw [Function.update_of_ne hne]
      exact hfixTop
    · simp only [if_neg heq]
      rw [Function.update_of_ne heq]
      exact h.root_fixed i hi
  · by_cases heq : i = bottom
    · rw [heq, Function.update_self, hrank bottom (Ne.symm hne)]
      exact hless
    · rw [Function.update_of_ne heq] at hstep ⊢
      have hitop : i ≠ top := fun h => hstep (h ▸ hfixTop)
      rw [hrank i hitop]
      exact (h.rank_lt i hi hstep).trans_le (hrankLe _)
  · by_cases hitop : i = top
    · simp only [hitop, hrootTop, if_neg hne]
      exact le_refl _
    · rw [hrank i hitop]
      have hlast := h.rank_le i hi
      by_cases heq : root i = bottom
      · simp only [if_pos heq]
        rw [heq] at hlast
        exact hlast.trans hless.le
      · simp only [if_neg heq]
        exact hlast.trans (hrankLe _)

theorem merged_eq_iff {top bottom x y : Nat} :
    ((if x = bottom then top else x) = if y = bottom then top else y) ↔
      x = y ∨ (x = top ∧ y = bottom) ∨ (x = bottom ∧ y = top) := by
  by_cases hx : x = bottom
  · by_cases hy : y = bottom
    · simp [hx, hy]
    · rw [if_pos hx, if_neg hy]
      simp only [hx, eq_comm (a := bottom), hy, false_or, and_false, true_and]
      exact eq_comm
  · by_cases hy : y = bottom
    · rw [if_neg hx, if_pos hy]
      simp only [hx, hy, and_true, false_or, false_and, or_false]
    · rw [if_neg hx, if_neg hy]
      simp only [hx, hy, and_false, false_and, or_false]

/-- **Union** joins the classes of its two numbers. -/
theorem unite_rooted {forest : Forest} (h : Rooted size forest.parent forest.rank root)
    {left right : Nat} (hleft : left < size) (hright : right < size) :
    ∃ root', Rooted size (unite size forest left right).parent (unite size forest left right).rank
        root' ∧ ∀ i j, (root' i = root' j ↔ root i = root j ∨
          (root i = root left ∧ root j = root right) ∨
          (root i = root right ∧ root j = root left)) := by
  obtain ⟨hfound, hmid⟩ := findRoot_spec h hleft (card_above_lt_size hleft)
  obtain ⟨hfound', hend⟩ := findRoot_spec hmid hright (card_above_lt_size hright)
  have hself : ∀ i < size, root (root i) = root i := fun i hi =>
    h.root_of_fixed _ (h.root_lt i hi) (h.root_fixed i hi)
  simp only [unite, hfound, hfound']
  by_cases hsame : root left = root right
  · rw [if_pos hsame]
    refine ⟨root, hend, fun i j => ⟨Or.inl, ?_⟩⟩
    rintro (heq | ⟨hi, hj⟩ | ⟨hi, hj⟩)
    · exact heq
    · rw [hi, hj, hsame]
    · rw [hi, hj, hsame]
  · rw [if_neg hsame]
    have hlink : ∀ top bottom, top < size → root top = top →
        root bottom = bottom → top ≠ bottom → forest.rank bottom ≤ forest.rank top →
        Rooted size (Function.update (findRoot size (findRoot size forest.parent left).2 right).2
            bottom top)
          (if forest.rank top = forest.rank bottom then
            Function.update forest.rank top (forest.rank top + 1) else forest.rank)
          (fun i => if root i = bottom then top else root i) := by
      intro top bottom htop hrootTop hrootBottom hne hle
      by_cases hequal : forest.rank top = forest.rank bottom
      · rw [if_pos hequal]
        refine rooted_link hend htop hrootTop hrootBottom hne ?_ ?_ ?_
        · rw [Function.update_self]
          exact Nat.lt_succ_of_le hle
        · rw [Function.update_self]
          exact Nat.le_succ _
        · exact fun i hi => Function.update_of_ne hi _ _
      · rw [if_neg hequal]
        exact rooted_link hend htop hrootTop hrootBottom hne
          (lt_of_le_of_ne hle (Ne.symm hequal)) (le_refl _) fun i _ => rfl
    by_cases hswap : forest.rank (root left) < forest.rank (root right)
    · simp only [if_pos hswap]
      refine ⟨_, hlink _ _ (h.root_lt _ hright) (hself _ hright)
        (hself _ hleft) (Ne.symm hsame) hswap.le, fun i j => merged_eq_iff.trans ?_⟩
      exact or_congr_right or_comm
    · simp only [if_neg hswap]
      exact ⟨_, hlink _ _ (h.root_lt _ hleft) (hself _ hleft)
        (hself _ hright) hsame (Nat.not_lt.1 hswap), fun i j => merged_eq_iff⟩

/-- What one more pair adds to the classes. -/
theorem eqvGen_append_singleton (pairs : List (Nat × Nat)) (pair : Nat × Nat) (i j : Nat) :
    Relation.EqvGen (fun a b => (a, b) ∈ pairs ++ [pair]) i j ↔
      Relation.EqvGen (fun a b => (a, b) ∈ pairs) i j ∨
        (Relation.EqvGen (fun a b => (a, b) ∈ pairs) i pair.1 ∧
          Relation.EqvGen (fun a b => (a, b) ∈ pairs) j pair.2) ∨
        (Relation.EqvGen (fun a b => (a, b) ∈ pairs) i pair.2 ∧
          Relation.EqvGen (fun a b => (a, b) ∈ pairs) j pair.1) := by
  constructor
  · intro h
    induction h with
    | rel a b hab =>
      rcases List.mem_append.1 hab with hmem | hlast
      · exact Or.inl (.rel a b hmem)
      · obtain ⟨rfl⟩ := List.mem_singleton.1 hlast
        exact Or.inr (Or.inl ⟨.refl _, .refl _⟩)
    | refl a => exact Or.inl (.refl a)
    | symm a b _ ih =>
      rcases ih with h | ⟨ha, hb⟩ | ⟨ha, hb⟩
      · exact Or.inl h.symm
      · exact Or.inr (Or.inr ⟨hb, ha⟩)
      · exact Or.inr (Or.inl ⟨hb, ha⟩)
    | trans a b c _ _ ih ih' =>
      rcases ih with h | ⟨ha, hb⟩ | ⟨ha, hb⟩
      · rcases ih' with h' | ⟨hb', hc⟩ | ⟨hb', hc⟩
        · exact Or.inl (h.trans _ _ _ h')
        · exact Or.inr (Or.inl ⟨h.trans _ _ _ hb', hc⟩)
        · exact Or.inr (Or.inr ⟨h.trans _ _ _ hb', hc⟩)
      · rcases ih' with h' | ⟨hb', hc⟩ | ⟨_, hc⟩
        · exact Or.inr (Or.inl ⟨ha, h'.symm.trans _ _ _ hb⟩)
        · exact Or.inr (Or.inl ⟨ha, hc⟩)
        · exact Or.inl (ha.trans _ _ _ hc.symm)
      · rcases ih' with h' | ⟨_, hc⟩ | ⟨hb', hc⟩
        · exact Or.inr (Or.inr ⟨ha, h'.symm.trans _ _ _ hb⟩)
        · exact Or.inl (ha.trans _ _ _ hc.symm)
        · exact Or.inr (Or.inr ⟨ha, hc⟩)
  · have hnew : Relation.EqvGen (fun a b => (a, b) ∈ pairs ++ [pair]) pair.1 pair.2 :=
      .rel _ _ (List.mem_append_right _ (List.mem_singleton_self pair))
    have hold : ∀ {a b}, Relation.EqvGen (fun a b => (a, b) ∈ pairs) a b →
        Relation.EqvGen (fun a b => (a, b) ∈ pairs ++ [pair]) a b := fun hab =>
      Relation.EqvGen.mono (fun _ _ hmem => List.mem_append_left [pair] hmem) _ _ hab
    rintro (h | ⟨hi, hj⟩ | ⟨hi, hj⟩)
    · exact hold h
    · exact ((hold hi).trans _ _ _ hnew).trans _ _ _ (hold hj).symm
    · exact ((hold hi).trans _ _ _ hnew.symm).trans _ _ _ (hold hj).symm

/-- **Many unions** leave the classes that their pairs generate. -/
theorem root_uniteAll_iff {pairs : List (Nat × Nat)}
    (hpairs : ∀ pair ∈ pairs, pair.1 < size ∧ pair.2 < size) :
    ∃ root, Rooted size (uniteAll size pairs singletons).parent
        (uniteAll size pairs singletons).rank root ∧
      ∀ i j, root i = root j ↔ Relation.EqvGen (fun a b => (a, b) ∈ pairs) i j := by
  induction pairs using List.reverseRecOn with
  | nil =>
    refine ⟨id, singletons_rooted size, fun i j => ⟨fun (h : i = j) => h ▸ .refl i, fun h => ?_⟩⟩
    induction h with
    | rel a b hab => exact nomatch hab
    | refl a => rfl
    | symm a b _ ih => exact ih.symm
    | trans a b c _ _ ih ih' => exact ih.trans ih'
  | append_singleton pairs pair ih =>
    obtain ⟨root, hrooted, hclasses⟩ := ih fun p hp => hpairs p (List.mem_append_left _ hp)
    obtain ⟨hleft, hright⟩ := hpairs pair (List.mem_append_right _ (List.mem_singleton_self pair))
    obtain ⟨root', hrooted', hroot'⟩ := unite_rooted hrooted hleft hright
    have hfold : uniteAll size (pairs ++ [pair]) singletons =
        unite size (uniteAll size pairs singletons) pair.1 pair.2 := by
      rw [uniteAll, List.foldl_append]
      rfl
    rw [hfold]
    refine ⟨root', hrooted', fun i j => (hroot' i j).trans ?_⟩
    simp only [hclasses]
    exact (eqvGen_append_singleton pairs pair i j).symm

end DisjointSets
end PgYaap
