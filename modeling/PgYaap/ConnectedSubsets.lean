import Mathlib

/-! # Enumerating the connected sets of a graph

A set of vertices is grown by adding a nonempty set of its neighbours at a time; the
neighbours that were seen are excluded from later growth, so that every set is reached in
one way only. The neighbours of a set are any monotone function of it, which covers the edges
of a graph (`neighborhood`) and of a hypergraph. `mem_grow` says which sets `grow` yields,
`pairwise_grow` that a set comes after all its subsets, which also means that none comes
twice. -/
namespace PgYaap
namespace ConnectedSubsets

variable {α : Type} [DecidableEq α]

/-! ## Growth -/

section Growth

variable (N : Finset α → Finset α)

/-- `A` can be grown from `S`: whatever lies between has a neighbour in the rest of `A`. -/
def GrowsTo (S A : Finset α) : Prop :=
  S ⊆ A ∧ ∀ B, S ⊆ B → B ⊂ A → ∃ y ∈ A, y ∉ B ∧ y ∈ N B

/-- `A` can be grown from each of its vertices. -/
def Spreading (A : Finset α) : Prop := A.Nonempty ∧ ∀ x ∈ A, GrowsTo N {x} A

variable {N}

omit [DecidableEq α] in
theorem growsTo_refl (S : Finset α) : GrowsTo N S S :=
  ⟨Finset.Subset.refl S, fun _ hB hlt => absurd hB hlt.2⟩

/-- Growth adds neighbours only. -/
theorem GrowsTo.subset {U A : Finset α} {x : α} (hU : ∀ S, N S ⊆ U) (h : GrowsTo N {x} A)
    (hx : x ∈ U) : A ⊆ U := by
  by_contra hnot
  have hxA : x ∈ A := Finset.singleton_subset_iff.1 h.1
  have hlt : A ∩ U ⊂ A := Finset.inter_subset_left.ssubset_of_ne fun heq =>
    hnot (heq ▸ Finset.inter_subset_right)
  obtain ⟨y, hyA, hynot, hy⟩ :=
    h.2 (A ∩ U) (Finset.singleton_subset_iff.2 (Finset.mem_inter.2 ⟨hxA, hx⟩)) hlt
  exact hynot (Finset.mem_inter.2 ⟨hyA, hU _ hy⟩)

end Growth

/-! ## Connectivity -/

section Connectivity

variable (nbr : α → Finset α)

/-- The neighbours of a set. -/
def neighborhood (S : Finset α) : Finset α := S.biUnion nbr

/-- Two vertices of a connected set are joined by a path within the set. -/
def Connected (A : Finset α) : Prop :=
  A.Nonempty ∧ ∀ x ∈ A, ∀ y ∈ A, Relation.ReflTransGen (fun u v => v ∈ A ∧ v ∈ nbr u) x y

variable {nbr}

theorem mem_neighborhood {S : Finset α} {y : α} :
    y ∈ neighborhood nbr S ↔ ∃ x ∈ S, y ∈ nbr x := Finset.mem_biUnion

theorem neighborhood_mono : Monotone (neighborhood nbr) := fun _ _ h =>
  Finset.biUnion_subset_biUnion_of_subset_left _ h

/-- A path out of a set leaves it somewhere. -/
theorem exists_exit {A B : Finset α} {x y : α}
    (hpath : Relation.ReflTransGen (fun u v => v ∈ A ∧ v ∈ nbr u) x y) (hx : x ∈ B) (hy : y ∉ B) :
    ∃ v ∈ A, v ∉ B ∧ v ∈ neighborhood nbr B := by
  induction hpath with
  | refl => exact absurd hx hy
  | tail hfirst hstep ih =>
    rename_i u v
    by_cases hu : u ∈ B
    · exact ⟨v, hstep.1, hy, mem_neighborhood.2 ⟨u, hu, hstep.2⟩⟩
    · exact ih hu

theorem Connected.growsTo {A S : Finset α} (h : Connected nbr A) (hsub : S ⊆ A)
    (hne : S.Nonempty) : GrowsTo (neighborhood nbr) S A := by
  refine ⟨hsub, ?_⟩
  intro B hB hBA
  obtain ⟨x, hx⟩ := hne
  obtain ⟨y, hyA, hyB⟩ := Finset.exists_of_ssubset hBA
  exact exists_exit (h.2 x (hsub hx) y hyA) (hB hx) hyB

/-- What grows from a connected set is connected, in an undirected graph. -/
theorem GrowsTo.connected (hsymm : ∀ x y, y ∈ nbr x → x ∈ nbr y) {A : Finset α} {x : α}
    (h : GrowsTo (neighborhood nbr) {x} A) : Connected nbr A := by
  classical
  have hx : x ∈ A := h.1 (Finset.mem_singleton_self x)
  have hreach : ∀ y ∈ A, Relation.ReflTransGen (fun u v => v ∈ A ∧ v ∈ nbr u) x y := by
    by_contra hnot
    push Not at hnot
    obtain ⟨y, hyA, hy⟩ := hnot
    let R := A.filter fun z => Relation.ReflTransGen (fun u v => v ∈ A ∧ v ∈ nbr u) x z
    have hyR : y ∉ R := fun hmem => hy (Finset.mem_filter.1 hmem).2
    have hRA : R ⊂ A :=
      Finset.ssubset_iff_subset_ne.2 ⟨Finset.filter_subset _ _, fun heq => hyR (heq.symm ▸ hyA)⟩
    obtain ⟨v, hvA, hvR, hv⟩ := h.2 R
      (Finset.singleton_subset_iff.2 (Finset.mem_filter.2 ⟨hx, .refl⟩)) hRA
    obtain ⟨u, hu, huv⟩ := mem_neighborhood.1 hv
    exact hvR (Finset.mem_filter.2 ⟨hvA, (Finset.mem_filter.1 hu).2.tail ⟨hvA, huv⟩⟩)
  have hback : ∀ y ∈ A, Relation.ReflTransGen (fun u v => v ∈ A ∧ v ∈ nbr u) y x := by
    intro y hy
    induction hreach y hy with
    | refl => exact .refl
    | tail hfirst hstep ih =>
      rename_i u v
      have hu : u ∈ A := by
        cases hfirst with
        | refl => exact hx
        | tail _ hlast => exact hlast.1
      exact .head ⟨hu, hsymm u v hstep.2⟩ (ih hu)
  exact ⟨⟨x, hx⟩, fun y hy z hz => (hback y hy).trans (hreach z hz)⟩

/-- In an undirected graph, what spreads is what is connected. -/
theorem spreading_iff_connected (hsymm : ∀ x y, y ∈ nbr x → x ∈ nbr y) {A : Finset α} :
    Spreading (neighborhood nbr) A ↔ Connected nbr A := by
  constructor
  · rintro ⟨⟨x, hx⟩, hgrow⟩
    exact (hgrow x hx).connected hsymm
  · intro h
    exact ⟨h.1, fun x hx =>
      h.growsTo (Finset.singleton_subset_iff.2 hx) (Finset.singleton_nonempty x)⟩

/-- **A last step**: a connected set of several vertices is a smaller connected set and one of
its neighbours. -/
theorem Connected.exists_last (hsymm : ∀ x y, y ∈ nbr x → x ∈ nbr y) {A : Finset α} {x : α}
    (h : Connected nbr A) (hx : x ∈ A) (hlarge : A ≠ {x}) :
    ∃ B y, Connected nbr B ∧ x ∈ B ∧ B ⊂ A ∧ y ∉ B ∧ y ∈ neighborhood nbr B ∧ A = insert y B := by
  classical
  have hsub : {x} ⊆ A := Finset.singleton_subset_iff.2 hx
  let grown := A.powerset.filter fun B => B ≠ A ∧ GrowsTo (neighborhood nbr) {x} B
  have hstart : {x} ∈ grown := by
    refine Finset.mem_filter.2 ⟨Finset.mem_powerset.2 hsub, Ne.symm hlarge, ?_⟩
    exact growsTo_refl {x}
  obtain ⟨B, hB, hmax⟩ := Finset.exists_max_image grown Finset.card ⟨_, hstart⟩
  obtain ⟨hBA, hne, hgrow⟩ := Finset.mem_filter.1 hB
  have hlt : B ⊂ A := (Finset.mem_powerset.1 hBA).ssubset_of_ne hne
  obtain ⟨y, hyA, hyB, hy⟩ :=
    (h.growsTo hsub (Finset.singleton_nonempty x)).2 B hgrow.1 hlt
  refine ⟨B, y, hgrow.connected hsymm, Finset.singleton_subset_iff.1 hgrow.1, hlt, hyB, hy, ?_⟩
  -- otherwise `insert y B` would be a larger proper part that grows from `x`
  by_contra hdiff
  have hgrown : insert y B ∈ grown := by
    refine Finset.mem_filter.2 ⟨?_, fun heq => hdiff heq.symm, ?_⟩
    · exact Finset.mem_powerset.2 (Finset.insert_subset hyA hlt.1)
    · refine ⟨hgrow.1.trans (Finset.subset_insert y B), fun C hC hCB => ?_⟩
      by_cases hBC : B ⊆ C
      · refine ⟨y, Finset.mem_insert_self y B, fun hyC => ?_, neighborhood_mono hBC hy⟩
        exact hCB.2 (Finset.insert_subset hyC hBC)
      · obtain ⟨z, hzB, hzC⟩ := Finset.not_subset.1 hBC
        have hless : C ∩ B ⊂ B :=
          Finset.inter_subset_right.ssubset_of_ne fun heq => hzC (Finset.mem_of_mem_inter_left
            (heq.symm ▸ hzB))
        obtain ⟨w, hwB, hwC, hw⟩ := hgrow.2 (C ∩ B) (Finset.subset_inter hC hgrow.1) hless
        refine ⟨w, Finset.mem_insert_of_mem hwB, fun h => hwC (Finset.mem_inter.2 ⟨h, hwB⟩), ?_⟩
        exact neighborhood_mono Finset.inter_subset_left hw
  have hcard := hmax _ hgrown
  rw [Finset.card_insert_of_notMem hyB] at hcard
  exact absurd hcard (Nat.not_succ_le_self _)

end Connectivity

/-! ## Growing -/

variable {N : Finset α → Finset α}

/-- **One round of growth.** The sets that grow from `S` and avoid `X` are those that grow
from `S ∪ T` and avoid `X` and the other neighbours of `S`, where `T` is what they have of
these neighbours. -/
theorem growsTo_iff_round (hN : Monotone N) {S X A : Finset α} (hX : S ⊆ X) :
    (S ⊂ A ∧ GrowsTo N S A ∧ Disjoint (A \ S) X) ↔
      ∃ T ⊆ N S \ X, T.Nonempty ∧ GrowsTo N (S ∪ T) A ∧
        Disjoint (A \ (S ∪ T)) (X ∪ (N S \ X)) := by
  constructor
  · rintro ⟨hSA, hgrow, hdisj⟩
    refine ⟨A ∩ (N S \ X), Finset.inter_subset_right, ?_, ⟨?_, ?_⟩, ?_⟩
    · obtain ⟨y, hyA, hyS, hy⟩ := hgrow.2 S (Finset.Subset.refl S) hSA
      refine ⟨y, Finset.mem_inter.2 ⟨hyA, Finset.mem_sdiff.2 ⟨hy, ?_⟩⟩⟩
      exact Finset.disjoint_left.1 hdisj (Finset.mem_sdiff.2 ⟨hyA, hyS⟩)
    · exact Finset.union_subset hgrow.1 Finset.inter_subset_left
    · intro B hB hBA
      exact hgrow.2 B (Finset.subset_union_left.trans hB) hBA
    · rw [Finset.disjoint_left]
      intro y hy hyX
      obtain ⟨hyA, hynot⟩ := Finset.mem_sdiff.1 hy
      rw [Finset.mem_union, not_or] at hynot
      rcases Finset.mem_union.1 hyX with hin | hin
      · exact Finset.disjoint_left.1 hdisj (Finset.mem_sdiff.2 ⟨hyA, hynot.1⟩) hin
      · exact hynot.2 (Finset.mem_inter.2 ⟨hyA, hin⟩)
  · rintro ⟨T, hT, ⟨t, ht⟩, hgrow, hdisj⟩
    have htX : t ∉ X := (Finset.mem_sdiff.1 (hT ht)).2
    have htA : t ∈ A := hgrow.1 (Finset.mem_union_right S ht)
    have hSA : S ⊆ A := Finset.subset_union_left.trans hgrow.1
    refine ⟨hSA.ssubset_of_ne ?_, ⟨hSA, ?_⟩, ?_⟩
    · intro heq
      exact htX (hX (heq ▸ htA))
    · intro B hB hBA
      by_cases hTB : T ⊆ B
      · exact hgrow.2 B (Finset.union_subset hB hTB) hBA
      · obtain ⟨y, hyT, hyB⟩ := Finset.not_subset.1 hTB
        refine ⟨y, hgrow.1 (Finset.mem_union_right S hyT), hyB, ?_⟩
        exact hN hB (Finset.mem_sdiff.1 (hT hyT)).1
    · rw [Finset.disjoint_left]
      intro y hy hyX
      obtain ⟨hyA, hyS⟩ := Finset.mem_sdiff.1 hy
      by_cases hyT : y ∈ T
      · exact (Finset.mem_sdiff.1 (hT hyT)).2 hyX
      · refine Finset.disjoint_left.1 hdisj (Finset.mem_sdiff.2 ⟨hyA, ?_⟩)
          (Finset.mem_union_left _ hyX)
        rw [Finset.mem_union, not_or]
        exact ⟨hyS, hyT⟩

/-- A listing of the nonempty subsets of each set of `U`, subsets first. -/
structure SubsetListing (U : Finset α) where
  sets : Finset α → List (Finset α)
  mem_sets : ∀ N ⊆ U, ∀ T, T ∈ sets N ↔ T ⊆ N ∧ T.Nonempty
  pairwise : ∀ N ⊆ U, (sets N).Pairwise fun T T' => ¬ T' ⊆ T

variable {U : Finset α} (N) (L : SubsetListing U)

/-- The sets that grow from `S` and avoid `X`, in the order in which they are found. -/
def grow : Nat → Finset α → Finset α → List (Finset α)
  | 0, _, _ => []
  | fuel + 1, S, X =>
    (L.sets (N S \ X)).map (S ∪ ·) ++
      (L.sets (N S \ X)).flatMap fun T =>
        grow fuel (S ∪ T) (X ∪ (N S \ X))

variable {N L} {S X A : Finset α}

theorem sdiff_subset_universe (hU : ∀ S, N S ⊆ U) : N S \ X ⊆ U :=
  Finset.sdiff_subset.trans (hU S)

theorem card_sdiff_lt {N : Finset α} (hN : N ⊆ U \ X) (hne : N.Nonempty) :
    (U \ (X ∪ N)).card < (U \ X).card := by
  obtain ⟨y, hy⟩ := hne
  apply Finset.card_lt_card
  refine Finset.ssubset_iff_of_subset ?_ |>.2 ⟨y, hN hy, ?_⟩
  · exact Finset.sdiff_subset_sdiff (Finset.Subset.refl U) Finset.subset_union_left
  · intro hmem
    exact (Finset.mem_sdiff.1 hmem).2 (Finset.mem_union_right X hy)

/-- The two ways a round yields a set. -/
theorem mem_grow_succ (hU : ∀ S, N S ⊆ U) {fuel : Nat} : A ∈ grow N L (fuel + 1) S X ↔
    ∃ T ⊆ N S \ X, T.Nonempty ∧
      (A = S ∪ T ∨ A ∈ grow N L fuel (S ∪ T) (X ∪ (N S \ X))) := by
  rw [grow, List.mem_append, List.mem_map, List.mem_flatMap]
  constructor
  · rintro (⟨T, hT, rfl⟩ | ⟨T, hT, hA⟩)
    · obtain ⟨hsub, hne⟩ := (L.mem_sets _ (sdiff_subset_universe hU) _).1 hT
      exact ⟨T, hsub, hne, Or.inl rfl⟩
    · obtain ⟨hsub, hne⟩ := (L.mem_sets _ (sdiff_subset_universe hU) _).1 hT
      exact ⟨T, hsub, hne, Or.inr hA⟩
  · rintro ⟨T, hsub, hne, rfl | hA⟩
    · exact Or.inl ⟨T, (L.mem_sets _ (sdiff_subset_universe hU) _).2 ⟨hsub, hne⟩, rfl⟩
    · exact Or.inr ⟨T, (L.mem_sets _ (sdiff_subset_universe hU) _).2 ⟨hsub, hne⟩, hA⟩

/-- **`grow` yields every set that grows from `S` and avoids `X`**, and no other. -/
theorem mem_grow (hN : Monotone N) (hU : ∀ S, N S ⊆ U) {fuel : Nat} (hfuel : (U \ X).card ≤ fuel) (hX : S ⊆ X) :
    A ∈ grow N L fuel S X ↔ S ⊂ A ∧ GrowsTo N S A ∧ Disjoint (A \ S) X := by
  have hsubU : ∀ {S X : Finset α}, N S \ X ⊆ U \ X := fun {S X} =>
    Finset.sdiff_subset_sdiff (hU S) (Finset.Subset.refl X)
  induction fuel generalizing S X with
  | zero =>
    rw [growsTo_iff_round hN hX]
    refine iff_of_false (fun h => nomatch h) ?_
    rintro ⟨T, hT, ⟨t, ht⟩, -⟩
    have hempty : U \ X = ∅ := Finset.card_eq_zero.1 (Nat.le_zero.1 hfuel)
    exact Finset.notMem_empty t (hempty ▸ hsubU (hT ht))
  | succ fuel ih =>
    rw [mem_grow_succ hU, growsTo_iff_round hN hX]
    refine exists_congr fun T => and_congr_right fun hT => and_congr_right fun hne => ?_
    have hcard : (U \ (X ∪ (N S \ X))).card ≤ fuel :=
      Nat.le_of_lt_succ ((card_sdiff_lt hsubU (hne.mono hT)).trans_le hfuel)
    have hSX : S ∪ T ⊆ X ∪ (N S \ X) := Finset.union_subset_union hX hT
    rw [show A ∈ grow N L fuel (S ∪ T) (X ∪ (N S \ X)) ↔ _ from ih hcard hSX]
    constructor
    · rintro (rfl | ⟨-, hgrow, hdisj⟩)
      · refine ⟨⟨Finset.Subset.refl _, ?_⟩, ?_⟩
        · exact fun B hB hBA => absurd hB hBA.2
        · rw [Finset.sdiff_self]
          exact Finset.disjoint_empty_left _
      · exact ⟨hgrow, hdisj⟩
    · rintro ⟨hgrow, hdisj⟩
      by_cases heq : A = S ∪ T
      · exact Or.inl heq
      · exact Or.inr ⟨hgrow.1.ssubset_of_ne (Ne.symm heq), hgrow, hdisj⟩

/-- What every set of `grow` has in common, whatever the fuel. -/
theorem grow_sound (hN : Monotone N) (hU : ∀ S, N S ⊆ U) {fuel : Nat} (h : A ∈ grow N L fuel S X) (hX : S ⊆ X) :
    S ⊂ A ∧ GrowsTo N S A ∧ Disjoint (A \ S) X := by
  induction fuel generalizing S X with
  | zero => exact nomatch h
  | succ fuel ih =>
    obtain ⟨T, hT, hne, hA⟩ := (mem_grow_succ hU).1 h
    refine (growsTo_iff_round hN hX).2 ⟨T, hT, hne, ?_⟩
    rcases hA with rfl | hA
    · refine ⟨⟨Finset.Subset.refl _, fun B hB hBA => absurd hB hBA.2⟩, ?_⟩
      rw [Finset.sdiff_self]
      exact Finset.disjoint_empty_left _
    · exact (ih hA (Finset.union_subset_union hX hT)).2

/-- What a set found in a later round has of the neighbours of `S`. -/
theorem grow_inter (hN : Monotone N) (hU : ∀ S, N S ⊆ U) {fuel : Nat} {T : Finset α} (hX : S ⊆ X)
    (hT : T ⊆ N S \ X)
    (h : A ∈ grow N L fuel (S ∪ T) (X ∪ (N S \ X))) :
    A ∩ (N S \ X) = T := by
  obtain ⟨hSA, -, hdisj⟩ := grow_sound hN hU h (Finset.union_subset_union hX hT)
  ext y
  rw [Finset.mem_inter]
  constructor
  · rintro ⟨hyA, hyN⟩
    by_contra hyT
    refine Finset.disjoint_left.1 hdisj (Finset.mem_sdiff.2 ⟨hyA, ?_⟩)
      (Finset.mem_union_right X hyN)
    rw [Finset.mem_union, not_or]
    exact ⟨fun hyS => (Finset.mem_sdiff.1 hyN).2 (hX hyS), hyT⟩
  · exact fun hyT => ⟨hSA.1 (Finset.mem_union_right S hyT), hT hyT⟩

/-- **Subsets come first**: no set of `grow` is contained in an earlier one. -/
theorem pairwise_grow (hN : Monotone N) (hU : ∀ S, N S ⊆ U) {fuel : Nat} (hX : S ⊆ X) :
    (grow N L fuel S X).Pairwise fun A B => ¬ B ⊆ A := by
  induction fuel generalizing S X with
  | zero => exact List.Pairwise.nil
  | succ fuel ih =>
    have hround : ∀ T ⊆ N S \ X, S ∪ T ⊆ X ∪ (N S \ X) :=
      fun T hT => Finset.union_subset_union hX hT
    have hnot : ∀ T ⊆ N S \ X, ∀ y ∈ T, y ∉ S := fun T hT y hy hyS =>
      (Finset.mem_sdiff.1 (hT hy)).2 (hX hyS)
    rw [grow, List.pairwise_append, List.pairwise_map, List.pairwise_flatMap]
    refine ⟨?_, ⟨?_, ?_⟩, ?_⟩
    · refine (L.pairwise _ (sdiff_subset_universe hU)).imp_of_mem ?_
      intro T T' hT hT' hle hsub
      refine hle fun y hy => ?_
      rcases Finset.mem_union.1 (hsub (Finset.mem_union_right S hy)) with hyS | hyT
      · exact absurd hyS (hnot T' ((L.mem_sets _ (sdiff_subset_universe hU) _).1 hT').1 y hy)
      · exact hyT
    · intro T hT
      exact ih (hround T ((L.mem_sets _ (sdiff_subset_universe hU) _).1 hT).1)
    · refine (L.pairwise _ (sdiff_subset_universe hU)).imp_of_mem ?_
      intro T T' hT hT' hle A hA B hB hsub
      have hAT := grow_inter hN hU hX ((L.mem_sets _ (sdiff_subset_universe hU) _).1 hT).1 hA
      have hBT := grow_inter hN hU hX ((L.mem_sets _ (sdiff_subset_universe hU) _).1 hT').1 hB
      refine hle ?_
      rw [← hAT, ← hBT]
      exact Finset.inter_subset_inter hsub (Finset.Subset.refl _)
    · -- a set of a later round has a vertex that is no neighbour of `S`
      intro A hA B hB hsub
      obtain ⟨T, hT, rfl⟩ := List.mem_map.1 hA
      obtain ⟨T', hT', hB⟩ := List.mem_flatMap.1 hB
      have hsub' := hround T' ((L.mem_sets _ (sdiff_subset_universe hU) _).1 hT').1
      obtain ⟨hlt, -, hdisj⟩ := grow_sound hN hU hB hsub'
      obtain ⟨y, hyB, hynot⟩ := Finset.exists_of_ssubset hlt
      refine Finset.disjoint_left.1 hdisj (Finset.mem_sdiff.2 ⟨hyB, hynot⟩) ?_
      rcases Finset.mem_union.1 (hsub hyB) with hyS | hyT
      · exact Finset.mem_union_left _ (hX hyS)
      · exact Finset.mem_union_right _ (((L.mem_sets _ (sdiff_subset_universe hU) _).1 hT).1 hyT)

/-- **A routine that visits what a round finds and then works on each of it** makes the visits
of `grow`, one after the other. -/
theorem routine_eq_foldl {σ : Type} (visit : σ → Finset α → σ)
    (routine : Nat → Finset α → Finset α → σ → Option σ) (hU : ∀ S, N S ⊆ U)
    (hround : ∀ fuel S X state, S.Nonempty → S ⊆ U → S ⊆ X → routine (fuel + 1) S X state =
      if N S \ X = ∅ then some state
      else ((L.sets (N S \ X)).map (S ∪ ·)).foldlM (fun s A => routine fuel A (X ∪ (N S \ X)) s)
        (((L.sets (N S \ X)).map (S ∪ ·)).foldl visit state))
    {fuel : Nat} (state : σ) (hfuel : (U \ X).card < fuel) (hS : S.Nonempty) (hSU : S ⊆ U)
    (hX : S ⊆ X) : routine fuel S X state = some ((grow N L fuel S X).foldl visit state) := by
  induction fuel generalizing S X state with
  | zero => exact absurd hfuel (Nat.not_lt_zero _)
  | succ fuel ih =>
    rw [hround fuel S X state hS hSU hX, grow, List.foldl_append]
    by_cases hempty : N S \ X = ∅
    · have hnil : L.sets (N S \ X) = [] := by
        refine List.eq_nil_iff_forall_not_mem.2 fun T hT => ?_
        obtain ⟨hsub, ⟨t, ht⟩⟩ := (L.mem_sets _ (sdiff_subset_universe hU) _).1 hT
        exact Finset.notMem_empty t (hempty ▸ hsub ht)
      rw [if_pos hempty, hnil]
      rfl
    · rw [if_neg hempty]
      have hcard : (U \ (X ∪ (N S \ X))).card < fuel := by
        refine (card_sdiff_lt ?_ (Finset.nonempty_iff_ne_empty.2 hempty)).trans_le
          (Nat.le_of_lt_succ hfuel)
        exact Finset.sdiff_subset_sdiff (hU S) (Finset.Subset.refl X)
      have hsub : ∀ T ∈ L.sets (N S \ X), T ⊆ N S \ X := fun T hT =>
        ((L.mem_sets _ (sdiff_subset_universe hU) _).1 hT).1
      generalize ((L.sets (N S \ X)).map (S ∪ ·)).foldl visit state = visited
      generalize L.sets (N S \ X) = sets at hsub
      induction sets generalizing visited with
      | nil => rfl
      | cons T rest ihsets =>
        have hT := hsub T List.mem_cons_self
        have hTU : S ∪ T ⊆ U := Finset.union_subset hSU (hT.trans (sdiff_subset_universe hU))
        rw [List.map_cons, List.foldlM_cons, List.flatMap_cons, List.foldl_append,
          ih visited hcard (hS.mono Finset.subset_union_left) hTU
            (Finset.union_subset_union hX hT)]
        exact ihsets _ fun T' hT' => hsub T' (List.mem_cons_of_mem T hT')

/-! ## From every seed -/

variable (N L)

/-- What grows from each seed in turn, without `X` and the later seeds. -/
def growSeeds (fuel : Nat) (X : Finset α) : List α → List (Finset α)
  | [] => []
  | seed :: rest =>
    ({seed} :: grow N L fuel {seed} (X ∪ (seed :: rest).toFinset)) ++ growSeeds fuel X rest

variable {N L}

theorem seed_subset {seed : α} {rest : List α} : {seed} ⊆ X ∪ (seed :: rest).toFinset := by
  rw [Finset.singleton_subset_iff, Finset.mem_union, List.mem_toFinset]
  exact Or.inr List.mem_cons_self

/-- The sets found from one seed. -/
theorem mem_seed_block (hN : Monotone N) (hU : ∀ S, N S ⊆ U) {fuel : Nat}
    (hfuel : U.card ≤ fuel) {seed : α} {rest : List α} (hX : seed ∉ X) (hrest : seed ∉ rest) :
    A ∈ {seed} :: grow N L fuel {seed} (X ∪ (seed :: rest).toFinset) ↔
      GrowsTo N {seed} A ∧ Disjoint A X ∧ ∀ v ∈ rest, v ∉ A := by
  have hcard : (U \ (X ∪ (seed :: rest).toFinset)).card ≤ fuel :=
    (Finset.card_le_card Finset.sdiff_subset).trans hfuel
  rw [List.mem_cons, mem_grow hN hU hcard seed_subset]
  constructor
  · rintro (rfl | ⟨-, hgrow, hdisj⟩)
    · refine ⟨growsTo_refl {seed}, Finset.disjoint_singleton_left.2 hX, ?_⟩
      intro v hv heq
      exact hrest (Finset.mem_singleton.1 heq ▸ hv)
    · have hnot : ∀ v ∈ A, v ≠ seed → v ∉ X ∪ (seed :: rest).toFinset := fun v hv hne =>
        Finset.disjoint_left.1 hdisj
          (Finset.mem_sdiff.2 ⟨hv, fun h => hne (Finset.mem_singleton.1 h)⟩)
      refine ⟨hgrow, Finset.disjoint_left.2 fun v hv hvX => ?_, fun v hv hvA => ?_⟩
      · by_cases hne : v = seed
        · exact hX (hne ▸ hvX)
        · exact hnot v hv hne (Finset.mem_union_left _ hvX)
      · have hne : v ≠ seed := fun h => hrest (h ▸ hv)
        exact hnot v hvA hne (Finset.mem_union_right _
          (List.mem_toFinset.2 (List.mem_cons_of_mem seed hv)))
  · rintro ⟨hgrow, hdisj, hnot⟩
    by_cases heq : A = {seed}
    · exact Or.inl heq
    · refine Or.inr ⟨hgrow.1.ssubset_of_ne (Ne.symm heq), hgrow, ?_⟩
      refine Finset.disjoint_left.2 fun v hv hvX => ?_
      obtain ⟨hvA, hvseed⟩ := Finset.mem_sdiff.1 hv
      rcases Finset.mem_union.1 hvX with hvX | hvrest
      · exact Finset.disjoint_left.1 hdisj hvA hvX
      · rcases List.mem_cons.1 (List.mem_toFinset.1 hvrest) with rfl | hvrest
        · exact hvseed (Finset.mem_singleton_self v)
        · exact hnot v hvrest hvA

/-- Every set of `growSeeds` grows from a seed and avoids `X`. -/
theorem growSeeds_sound (hN : Monotone N) (hU : ∀ S, N S ⊆ U) {fuel : Nat}
    (hfuel : U.card ≤ fuel) {seeds : List α} (hX : ∀ v ∈ seeds, v ∉ X) (hnodup : seeds.Nodup)
    (h : A ∈ growSeeds N L fuel X seeds) :
    Disjoint A X ∧ ∃ v ∈ seeds, GrowsTo N {v} A := by
  induction seeds with
  | nil => exact nomatch h
  | cons seed rest ih =>
    obtain ⟨hseed, hnodup⟩ := List.nodup_cons.1 hnodup
    rw [growSeeds, List.mem_append, mem_seed_block hN hU hfuel (hX seed List.mem_cons_self) hseed]
      at h
    rcases h with ⟨hgrow, hdisj, -⟩ | hrest
    · exact ⟨hdisj, seed, List.mem_cons_self, hgrow⟩
    · obtain ⟨hdisj, v, hv, hgrow⟩ :=
        ih (fun v hv => hX v (List.mem_cons_of_mem seed hv)) hnodup hrest
      exact ⟨hdisj, v, List.mem_cons_of_mem seed hv, hgrow⟩

/-- **Growing from every seed** yields the sets that spread, avoid `X` and have a seed. -/
theorem mem_growSeeds (hN : Monotone N) (hU : ∀ S, N S ⊆ U) {fuel : Nat}
    (hfuel : U.card ≤ fuel) {seeds : List α} (hX : ∀ v ∈ seeds, v ∉ X) (hnodup : seeds.Nodup)
    (hA : Spreading N A) (hdisj : Disjoint A X) (hseed : ∃ v ∈ seeds, v ∈ A) :
    A ∈ growSeeds N L fuel X seeds := by
  induction seeds with
  | nil =>
    obtain ⟨v, hv, -⟩ := hseed
    exact nomatch hv
  | cons seed rest ih =>
    obtain ⟨hnotin, hnodup⟩ := List.nodup_cons.1 hnodup
    rw [growSeeds, List.mem_append]
    by_cases hlater : ∃ w ∈ rest, w ∈ A
    · exact Or.inr (ih (fun v hv => hX v (List.mem_cons_of_mem seed hv)) hnodup hlater)
    · -- the seed of the set is the last one in it
      push Not at hlater
      obtain ⟨v, hv, hvA⟩ := hseed
      have hmem : seed ∈ A := by
        rcases List.mem_cons.1 hv with rfl | hrest
        · exact hvA
        · exact absurd hvA (hlater v hrest)
      exact Or.inl ((mem_seed_block hN hU hfuel (hX seed List.mem_cons_self) hnotin).2
        ⟨hA.2 seed hmem, hdisj, hlater⟩)

/-- Subsets come first over all seeds too. -/
theorem pairwise_growSeeds (hN : Monotone N) (hU : ∀ S, N S ⊆ U) {fuel : Nat}
    (hfuel : U.card ≤ fuel) {seeds : List α} (hX : ∀ v ∈ seeds, v ∉ X) (hnodup : seeds.Nodup) :
    (growSeeds N L fuel X seeds).Pairwise fun A B => ¬ B ⊆ A := by
  induction seeds with
  | nil => exact List.Pairwise.nil
  | cons seed rest ih =>
    obtain ⟨hseed, hrest⟩ := List.nodup_cons.1 hnodup
    have hXrest : ∀ v ∈ rest, v ∉ X := fun v hv => hX v (List.mem_cons_of_mem seed hv)
    rw [growSeeds, List.pairwise_append, List.pairwise_cons]
    refine ⟨⟨?_, pairwise_grow hN hU seed_subset⟩, ih hXrest hrest, ?_⟩
    · intro B hB hle
      exact (grow_sound hN hU hB seed_subset).1.2 hle
    · -- a set with a later seed is in no set without the later seeds
      intro A hA B hB hle
      obtain ⟨-, -, hnot⟩ :=
        (mem_seed_block hN hU hfuel (hX seed List.mem_cons_self) hseed).1 hA
      obtain ⟨-, v, hv, hgrow⟩ := growSeeds_sound hN hU hfuel hXrest hrest hB
      exact hnot v hv (hle (Finset.singleton_subset_iff.1 hgrow.1))

theorem nodup_growSeeds (hN : Monotone N) (hU : ∀ S, N S ⊆ U) {fuel : Nat}
    (hfuel : U.card ≤ fuel) {seeds : List α} (hX : ∀ v ∈ seeds, v ∉ X) (hnodup : seeds.Nodup) :
    (growSeeds N L fuel X seeds).Nodup := by
  refine (pairwise_growSeeds hN hU hfuel hX hnodup).imp ?_
  intro A B hle heq
  exact hle (heq ▸ Finset.Subset.refl A)

/-- With the seeds in descending order, no later set lies above an earlier one. -/
theorem pairwise_growSeeds_bound [LinearOrder α] (hN : Monotone N) (hU : ∀ S, N S ⊆ U)
    {fuel : Nat} (hfuel : U.card ≤ fuel) {seeds : List α} (hX : ∀ v ∈ seeds, v ∉ X)
    (hdesc : seeds.Pairwise (· > ·))
    (hrest : ∀ A, (∃ v ∈ seeds, GrowsTo N {v} A) → ∀ u ∈ A, u ∉ seeds → ∀ v ∈ seeds, v < u) :
    (growSeeds N L fuel X seeds).Pairwise fun A B => ∃ y ∈ B, ∀ x ∈ A, y ≤ x := by
  induction seeds with
  | nil => exact List.Pairwise.nil
  | cons seed rest ih =>
    obtain ⟨hseed, hdesc'⟩ := List.pairwise_cons.1 hdesc
    have hnotin : seed ∉ rest := fun h => lt_irrefl _ (hseed seed h)
    have hnodup : rest.Nodup := hdesc'.imp fun h => ne_of_gt h
    have hXrest : ∀ v ∈ rest, v ∉ X := fun v hv => hX v (List.mem_cons_of_mem seed hv)
    have hblock : ∀ A ∈ {seed} :: grow N L fuel {seed} (X ∪ (seed :: rest).toFinset),
        seed ∈ A ∧ ∀ x ∈ A, seed ≤ x := by
      intro A hA
      obtain ⟨hgrow, -, hnot⟩ :=
        (mem_seed_block hN hU hfuel (hX seed List.mem_cons_self) hnotin).1 hA
      refine ⟨Finset.singleton_subset_iff.1 hgrow.1, fun x hx => ?_⟩
      by_cases hxseed : x = seed
      · exact hxseed ▸ le_refl _
      · refine (hrest A ⟨seed, List.mem_cons_self, hgrow⟩ x hx ?_ seed List.mem_cons_self).le
        intro hin
        rcases List.mem_cons.1 hin with heq | hin
        · exact hxseed heq
        · exact hnot x hin hx
    rw [growSeeds, List.pairwise_append]
    refine ⟨?_, ih hXrest hdesc' ?_, ?_⟩
    · refine List.pairwise_of_forall_mem_list fun A hA B hB => ?_
      exact ⟨seed, (hblock B hB).1, (hblock A hA).2⟩
    · rintro A ⟨w, hw, hgrow⟩ u hu hnot v hv
      by_cases huseed : u = seed
      · exact huseed ▸ hseed v hv
      · refine hrest A ⟨w, List.mem_cons_of_mem seed hw, hgrow⟩ u hu ?_ v
          (List.mem_cons_of_mem seed hv)
        rw [List.mem_cons, not_or]
        exact ⟨huseed, hnot⟩
    · intro A hA B hB
      obtain ⟨-, v, hv, hgrow⟩ := growSeeds_sound hN hU hfuel hXrest hnodup hB
      exact ⟨v, Finset.singleton_subset_iff.1 hgrow.1,
        fun x hx => (hseed v hv).le.trans ((hblock A hA).2 x hx)⟩

end ConnectedSubsets
end PgYaap
