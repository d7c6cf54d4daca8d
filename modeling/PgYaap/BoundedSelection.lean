import Mathlib

/-! # Sorting, and keeping the first rows

A sort gets a test `less` and may rely on it being a strict weak order of the elements; it then
arranges them without a later one that is less than an earlier one. Nothing is said about a sort
that gets another test, and nothing about the order of elements that are not less than each other.

A bounded selection keeps at most `n` of the elements that arrive. While there is room it takes
what comes; afterwards a new element replaces one that is worst among those kept, where it comes
before that one, and is dropped otherwise. What is kept are always the first elements of some
arrangement of all that have arrived. -/
namespace PgYaap
namespace BoundedSelection

variable {α β : Type*}

/-! ## Sorts -/

/-- A strict weak order of the elements of a list. -/
structure StrictWeak (less : α → α → Bool) (l : List α) : Prop where
  irrefl : ∀ a ∈ l, less a a = false
  trans : ∀ a ∈ l, ∀ b ∈ l, ∀ c ∈ l, less a b = true → less b c = true → less a c = true
  incomparable : ∀ a ∈ l, ∀ b ∈ l, ∀ c ∈ l,
    less a b = false → less b c = false → less a c = false

/-- **What a sort may do** with a list. -/
def Sorts (less : α → α → Bool) (l l' : List α) : Prop :=
  StrictWeak less l → l'.Perm l ∧ l'.Pairwise fun a b => less b a = false

/-- Elements in order. -/
def InOrder (cmp : β → β → Ordering) (l : List β) : Prop :=
  l.Pairwise fun a b => (cmp a b).isLE = true

section SortByKey

variable {cmp : β → β → Ordering} [Std.TransCmp cmp] {less : α → α → Bool} {key : α → β}
  {l l' : List α}

/-- Of two elements one is not behind the other. -/
theorem isLE_total (a b : β) : ((cmp a b).isLE || (cmp b a).isLE) = true := by
  rw [Bool.or_eq_true, ← Std.OrientedCmp.isGE_iff_isLE (a := a) (b := b)]
  cases cmp a b with
  | lt => exact Or.inl rfl
  | eq => exact Or.inl rfl
  | gt => exact Or.inr rfl

/-- A test that compares keys is a strict weak order. -/
theorem strictWeak_of_key (h : ∀ a ∈ l, ∀ b ∈ l, less a b = true ↔ cmp (key a) (key b) = .lt) :
    StrictWeak less l where
  irrefl := by
    intro a ha
    have hrefl : cmp (key a) (key a) = .eq := Std.ReflCmp.compare_self
    rw [Bool.eq_false_iff, Ne, h a ha a ha, hrefl]
    exact Ordering.noConfusion
  trans := by
    intro a ha b hb c hc hab hbc
    rw [h a ha b hb] at hab
    rw [h b hb c hc] at hbc
    exact (h a ha c hc).2 (Std.TransCmp.lt_trans hab hbc)
  incomparable := by
    intro a ha b hb c hc hab hbc
    rw [Bool.eq_false_iff, Ne, h _ ‹_› _ ‹_›] at hab hbc ⊢
    rw [← Ordering.isGE_iff_ne_lt] at hab hbc ⊢
    exact Std.TransCmp.isGE_trans hab hbc

/-- **A sort by keys** arranges the elements with their keys in order. -/
theorem Sorts.inOrder (hsorts : Sorts less l l')
    (h : ∀ a ∈ l, ∀ b ∈ l, less a b = true ↔ cmp (key a) (key b) = .lt) :
    l'.Perm l ∧ InOrder cmp (l'.map key) := by
  obtain ⟨hperm, hsorted⟩ := hsorts (strictWeak_of_key h)
  refine ⟨hperm, List.pairwise_map.2 ?_⟩
  refine hsorted.imp_of_mem ?_
  intro a b ha hb hless
  rw [Bool.eq_false_iff, Ne, h b (hperm.subset hb) a (hperm.subset ha),
    ← Ordering.isGE_iff_ne_lt, Std.OrientedCmp.isGE_iff_isLE] at hless
  exact hless

/-- There is a result of a sort by keys. -/
theorem exists_sorts (h : ∀ a ∈ l, ∀ b ∈ l, less a b = true ↔ cmp (key a) (key b) = .lt) :
    ∃ l', Sorts less l l' := by
  let le : α → α → Bool := fun a b => (cmp (key a) (key b)).isLE
  have hperm : (l.mergeSort le).Perm l := List.mergeSort_perm l le
  refine ⟨l.mergeSort le, fun _ => ⟨hperm, ?_⟩⟩
  have hsorted : (l.mergeSort le).Pairwise fun a b => le a b = true := by
    refine List.pairwise_mergeSort ?_ (fun a b => isLE_total (key a) (key b)) l
    exact fun a b c hab hbc => Std.TransCmp.isLE_trans hab hbc
  refine hsorted.imp_of_mem ?_
  intro a b ha hb hle
  rw [Bool.eq_false_iff, Ne, h b (hperm.subset hb) a (hperm.subset ha),
    ← Ordering.isGE_iff_ne_lt, Std.OrientedCmp.isGE_iff_isLE]
  exact hle

end SortByKey

/-! ## The first elements -/

/-- **The first `n` elements** of an arrangement of all elements in order. -/
def TakesFirst (cmp : β → β → Ordering) (n : Nat) (all out : List β) : Prop :=
  ∃ sorted : List β, sorted.Perm all ∧ InOrder cmp sorted ∧ out = sorted.take n

theorem TakesFirst.mem {cmp : β → β → Ordering} {n : Nat} {all out : List β}
    (h : TakesFirst cmp n all out) {b : β} (hb : b ∈ out) : b ∈ all := by
  obtain ⟨sorted, hperm, -, rfl⟩ := h
  exact hperm.subset (List.mem_of_mem_take hb)

/-- Comparing by a function, the first elements are also first as values of it. -/
theorem TakesFirst.map {cmp : β → β → Ordering} {f : α → β} {n : Nat} {all out : List α}
    (h : TakesFirst (fun a b => cmp (f a) (f b)) n all out) :
    TakesFirst cmp n (all.map f) (out.map f) := by
  obtain ⟨sorted, hperm, hsorted, rfl⟩ := h
  exact ⟨sorted.map f, hperm.map f, List.pairwise_map.2 hsorted, List.map_take⟩

/-! ## The worst element -/

/-- The loop that looks for the first worst one among `n` elements. -/
def worstIndex (worse : Nat → Nat → Bool) (n : Nat) : Nat :=
  (List.range' 1 (n - 1)).foldl (fun worst i => if worse i worst then i else worst) 0

section Worst

variable {cmp : β → β → Ordering} [Std.TransCmp cmp] {worse : Nat → Nat → Bool} {key : Nat → β}

/-- After `k` turns the index is that of a worst element among the first `k + 1`. -/
theorem foldl_worst {n : Nat}
    (h : ∀ i < n, ∀ j < n, worse i j = true ↔ cmp (key i) (key j) = .gt) (k : Nat) (hk : k < n) :
    (List.range' 1 k).foldl (fun worst i => if worse i worst then i else worst) 0 ≤ k ∧
      ∀ i ≤ k, (cmp (key i) (key ((List.range' 1 k).foldl
        (fun worst i => if worse i worst then i else worst) 0))).isLE = true := by
  induction k with
  | zero =>
    refine ⟨Nat.le_refl 0, fun i hi => ?_⟩
    obtain rfl := Nat.le_zero.1 hi
    exact Std.ReflCmp.isLE_rfl
  | succ k ih =>
    obtain ⟨hle, hworst⟩ := ih (by omega)
    rw [List.range'_1_concat, List.foldl_append, List.foldl_cons, List.foldl_nil, Nat.add_comm 1 k]
    by_cases hworse : worse (k + 1) ((List.range' 1 k).foldl
        (fun worst i => if worse i worst then i else worst) 0) = true
    · rw [if_pos hworse]
      rw [h (k + 1) hk _ (by omega)] at hworse
      refine ⟨Nat.le_refl _, fun i hi => ?_⟩
      rcases Nat.lt_or_eq_of_le hi with hlt | rfl
      · refine Std.TransCmp.isLE_trans (hworst i (by omega)) ?_
        rw [Std.OrientedCmp.gt_iff_lt] at hworse
        rw [hworse]
        rfl
      · exact Std.ReflCmp.isLE_rfl
    · rw [if_neg hworse]
      rw [h (k + 1) hk _ (by omega)] at hworse
      refine ⟨Nat.le_succ_of_le hle, fun i hi => ?_⟩
      rcases Nat.lt_or_eq_of_le hi with hlt | rfl
      · exact hworst i (by omega)
      · exact Ordering.isLE_iff_ne_gt.2 hworse

/-- **The index that is found** is that of a worst element. -/
theorem worstIndex_spec {n : Nat} (hn : 0 < n)
    (h : ∀ i < n, ∀ j < n, worse i j = true ↔ cmp (key i) (key j) = .gt) :
    worstIndex worse n < n ∧
      ∀ i < n, (cmp (key i) (key (worstIndex worse n))).isLE = true := by
  obtain ⟨hle, hworst⟩ := foldl_worst h (n - 1) (by omega)
  unfold worstIndex
  exact ⟨by omega, fun i hi => hworst i (by omega)⟩

end Worst

/-! ## Bounded selections -/

/-- **A bounded selection** of what has arrived: at most `n` elements, and none that was dropped
comes before one that is kept. -/
def Selects (cmp : β → β → Ordering) (n : Nat) (seen kept : List β) : Prop :=
  kept.length = min n seen.length ∧
    ∃ dropped : List β, (kept ++ dropped).Perm seen ∧
      ∀ a ∈ kept, ∀ b ∈ dropped, (cmp a b).isLE = true

section Selection

variable {cmp : β → β → Ordering} {n : Nat} {seen kept : List β} {x : β}

theorem selects_nil (cmp : β → β → Ordering) (n : Nat) : Selects cmp n [] [] :=
  ⟨(Nat.min_zero n).symm, [], List.Perm.refl _, fun _ h => absurd h List.not_mem_nil⟩

/-- While there is room nothing has been dropped. -/
theorem Selects.perm_of_lt (h : Selects cmp n seen kept) (hlt : kept.length < n) :
    kept.Perm seen := by
  obtain ⟨hlength, dropped, hperm, -⟩ := h
  have htotal := hperm.length_eq
  rw [List.length_append] at htotal
  have hnone : dropped = [] := List.eq_nil_of_length_eq_zero (by omega)
  rwa [hnone, List.append_nil] at hperm

theorem Selects.subset (h : Selects cmp n seen kept) : kept ⊆ seen := by
  obtain ⟨-, dropped, hperm, -⟩ := h
  exact fun a ha => hperm.subset (List.mem_append_left _ ha)

/-- An element is taken while there is room. -/
theorem Selects.append (h : Selects cmp n seen kept) (hlt : kept.length < n) :
    Selects cmp n (seen ++ [x]) (kept ++ [x]) := by
  have hperm := h.perm_of_lt hlt
  refine ⟨?_, [], ?_, fun _ _ b hb => absurd hb List.not_mem_nil⟩
  · have hlength := hperm.length_eq
    rw [List.length_append, List.length_append, List.length_singleton]
    omega
  · rw [List.append_nil]
    exact hperm.append_right [x]

/-- An element is dropped that does not come before any that is kept. -/
theorem Selects.skip (h : Selects cmp n seen kept) (hfull : n ≤ kept.length)
    (hx : ∀ a ∈ kept, (cmp a x).isLE = true) : Selects cmp n (seen ++ [x]) kept := by
  obtain ⟨hlength, dropped, hperm, hle⟩ := h
  refine ⟨?_, dropped ++ [x], ?_, fun a ha b hb => ?_⟩
  · rw [List.length_append]
    omega
  · rw [← List.append_assoc]
    exact hperm.append_right [x]
  · rcases List.mem_append.1 hb with hb | hb
    · exact hle a ha b hb
    · rw [List.mem_singleton.1 hb]
      exact hx a ha

variable [Std.TransCmp cmp]

/-- **An element replaces a worst one** that it comes before. -/
theorem Selects.replace (h : Selects cmp n seen kept) (hfull : n ≤ kept.length) {i : Nat} {w : β}
    (hw : kept[i]? = some w) (hworst : ∀ a ∈ kept, (cmp a w).isLE = true)
    (hx : cmp x w = .lt) : Selects cmp n (seen ++ [x]) (kept.eraseIdx i ++ [x]) := by
  obtain ⟨hlength, dropped, hperm, hle⟩ := h
  obtain ⟨hlt, hget⟩ := List.getElem?_eq_some_iff.1 hw
  have hsplit : (w :: kept.eraseIdx i).Perm kept := by
    rw [← hget]
    exact List.getElem_cons_eraseIdx_perm hlt
  have hxw : (cmp x w).isLE = true := by
    rw [hx]
    rfl
  have hwle : ∀ b ∈ dropped, (cmp w b).isLE = true := by
    exact hle w (List.mem_of_getElem? hw)
  refine ⟨?_, w :: dropped, ?_, ?_⟩
  · rw [List.length_append, List.length_append, List.length_singleton,
      List.length_eraseIdx_of_lt hlt]
    omega
  · -- the worst element goes over to those that were dropped
    have hmove : (kept.eraseIdx i ++ [x] ++ w :: dropped).Perm
        (w :: kept.eraseIdx i ++ dropped ++ [x]) := by
      rw [List.append_assoc]
      refine (List.perm_append_comm_assoc _ _ _).trans ?_
      rw [List.singleton_append]
      refine (List.perm_append_singleton x _).symm.trans ?_
      refine List.Perm.append_right [x] ?_
      rw [List.cons_append]
      exact List.perm_middle
    refine hmove.trans (List.Perm.append_right [x] ?_)
    exact (hsplit.append_right dropped).trans hperm
  · intro a ha b hb
    have haw : (cmp a w).isLE = true := by
      rcases List.mem_append.1 ha with ha | ha
      · exact hworst a (List.mem_of_mem_eraseIdx ha)
      · rw [List.mem_singleton.1 ha]
        exact hxw
    rcases List.mem_cons.1 hb with rfl | hb
    · exact haw
    · exact Std.TransCmp.isLE_trans haw (hwle b hb)

/-- **What a bounded selection keeps, in order**, are the first elements of all. -/
theorem Selects.takesFirst (h : Selects cmp n seen kept) {out : List β} (hout : out.Perm kept)
    (hsorted : InOrder cmp out) : TakesFirst cmp n seen out := by
  obtain ⟨hlength, dropped, hperm, hle⟩ := h
  have htotal := hperm.length_eq
  rw [List.length_append] at htotal
  have hrest : (dropped.mergeSort fun a b => (cmp a b).isLE).Perm dropped :=
    List.mergeSort_perm _ _
  refine ⟨out ++ dropped.mergeSort fun a b => (cmp a b).isLE, ?_, ?_, ?_⟩
  · exact (hout.append hrest).trans hperm
  · refine List.pairwise_append.2 ⟨hsorted, ?_, fun a ha b hb => ?_⟩
    · refine List.pairwise_mergeSort ?_ isLE_total dropped
      exact fun a b c hab hbc => Std.TransCmp.isLE_trans hab hbc
    · exact hle a (hout.subset ha) b (hrest.subset hb)
  · have houtLength := hout.length_eq
    by_cases hn : out.length = n
    · rw [← hn, List.take_left]
    · -- fewer than `n` are kept only where none is dropped
      have hnone : dropped = [] := List.eq_nil_of_length_eq_zero (by omega)
      rw [hnone, List.mergeSort_nil, List.append_nil, List.take_of_length_le (by omega)]

end Selection
end BoundedSelection
end PgYaap
