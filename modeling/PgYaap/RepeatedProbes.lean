import Mathlib

/-! # Open addressing with repeated keys

A table of slots keeps the indices of rows. A row is entered at the first empty slot of the path
of its key, also where the key is in the table already, and slots are never emptied. So the rows
of one key stand along its path in the order in which they were entered, with only older rows
before each of them, and a walk up to the first empty slot meets all of them. -/
namespace PgYaap
namespace RepeatedProbes

variable {K Slot : Type}

/-- **A table of rows**: every index in it is that of a row, no row has two slots, and on the path
of its key every row has only older rows before it. -/
structure WellFormed (path : K → Nat → Slot) (table : Slot → Option Nat) (rows : List K) :
    Prop where
  inside : ∀ s i, table s = some i → i < rows.length
  once : ∀ s s' i, table s = some i → table s' = some i → s = s'
  placed : ∀ i k, rows[i]? = some k →
    ∃ n, table (path k n) = some i ∧ ∀ m < n, ∃ j < i, table (path k m) = some j

/-- The first empty slot of the path of a key. -/
structure FirstEmpty (path : K → Nat → Slot) (table : Slot → Option Nat) (k : K) (n : Nat) :
    Prop where
  empty : table (path k n) = none
  taken : ∀ m < n, table (path k m) ≠ none

variable {path : K → Nat → Slot} {table : Slot → Option Nat} {rows : List K} {k : K} {n : Nat}

theorem wellFormed_nil : WellFormed path (fun _ => none) ([] : List K) :=
  ⟨fun _ _ h => (Option.some_ne_none _ h.symm).elim,
    fun _ _ _ h => (Option.some_ne_none _ h.symm).elim,
    fun _ _ h => (Option.some_ne_none _ h.symm).elim⟩

/-- **With more slots than rows a path meets an empty slot.** -/
theorem WellFormed.exists_firstEmpty (h : WellFormed path table rows) {capacity : Nat}
    (hpath : ∀ m < capacity, ∀ n < capacity, path k m = path k n → m = n)
    (hroom : rows.length < capacity) : ∃ n < capacity, FirstEmpty path table k n := by
  classical
  have hempty : ∃ n, n < capacity ∧ table (path k n) = none := by
    by_contra hfull
    have htaken : ∀ m : Fin capacity, ∃ i : Fin rows.length,
        table (path k m) = some i.val := by
      intro m
      cases hslot : table (path k m) with
      | none => exact absurd ⟨m, m.isLt, hslot⟩ hfull
      | some i => exact ⟨⟨i, h.inside _ i hslot⟩, rfl⟩
    choose index hindex using htaken
    have hinj : Function.Injective index := by
      intro m n heq
      have hm := hindex m
      rw [heq] at hm
      exact Fin.ext (hpath m m.isLt n n.isLt (h.once _ _ _ hm (hindex n)))
    have hcard := Fintype.card_le_of_injective index hinj
    rw [Fintype.card_fin, Fintype.card_fin] at hcard
    omega
  have hleast : ∀ m < Nat.find hempty, table (path k m) ≠ none := by
    intro m hm hnone
    exact Nat.find_min hempty hm ⟨Nat.lt_trans hm (Nat.find_spec hempty).1, hnone⟩
  exact ⟨Nat.find hempty, (Nat.find_spec hempty).1, (Nat.find_spec hempty).2, hleast⟩

/-- **A row is entered** at the first empty slot of its path. -/
theorem WellFormed.insert [DecidableEq Slot] (h : WellFormed path table rows)
    (hfirst : FirstEmpty path table k n) :
    WellFormed path (Function.update table (path k n) (some rows.length)) (rows ++ [k]) := by
  have hkept : ∀ s i, table s = some i →
      Function.update table (path k n) (some rows.length) s = some i := by
    intro s i hs
    rw [Function.update_of_ne, hs]
    rintro rfl
    exact Option.some_ne_none _ (hs.symm.trans hfirst.empty)
  have hfrom : ∀ s i, Function.update table (path k n) (some rows.length) s = some i →
      (s = path k n ∧ i = rows.length) ∨ table s = some i := by
    intro s i hs
    by_cases heq : s = path k n
    · rw [heq, Function.update_self] at hs
      exact .inl ⟨heq, (Option.some.inj hs).symm⟩
    · rw [Function.update_of_ne heq] at hs
      exact .inr hs
  refine ⟨?_, ?_, ?_⟩
  · intro s i hs
    rw [List.length_append, List.length_singleton]
    rcases hfrom s i hs with ⟨-, rfl⟩ | hold
    · omega
    · have := h.inside s i hold
      omega
  · intro s s' i hs hs'
    rcases hfrom s i hs with ⟨rfl, rfl⟩ | hold
    · rcases hfrom s' _ hs' with ⟨rfl, -⟩ | hold'
      · rfl
      · exact absurd (h.inside s' _ hold') (Nat.lt_irrefl _)
    · rcases hfrom s' i hs' with ⟨-, rfl⟩ | hold'
      · exact absurd (h.inside s _ hold) (Nat.lt_irrefl _)
      · exact h.once s s' i hold hold'
  · intro i k' hi
    by_cases hlt : i < rows.length
    · rw [List.getElem?_append_left hlt] at hi
      obtain ⟨n', hslot, hbefore⟩ := h.placed i k' hi
      refine ⟨n', hkept _ _ hslot, fun m hm => ?_⟩
      obtain ⟨j, hj, hold⟩ := hbefore m hm
      exact ⟨j, hj, hkept _ _ hold⟩
    · have hlength := (List.getElem?_eq_some_iff.1 hi).1
      rw [List.length_append, List.length_singleton] at hlength
      obtain rfl : i = rows.length := by omega
      rw [List.getElem?_concat_length] at hi
      obtain rfl := Option.some.inj hi
      refine ⟨n, Function.update_self _ _ _, fun m hm => ?_⟩
      obtain ⟨j, hj⟩ := Option.ne_none_iff_exists'.1 (hfirst.taken m hm)
      exact ⟨j, h.inside _ j hj, hkept _ _ hj⟩

/-! ## The walk along a path -/

/-- A row of the key stands before the first empty slot, behind older rows only. -/
theorem WellFormed.depth_of_mem {capacity : Nat} (h : WellFormed path table rows)
    (hpath : ∀ m < capacity, ∀ n < capacity, path k m = path k n → m = n)
    (hfirst : FirstEmpty path table k n) (hn : n < capacity) {i : Nat} (hi : rows[i]? = some k) :
    ∃ m < n, table (path k m) = some i ∧
      ∀ l < n, table (path k l) = some i → ∀ m' < l, ∃ j < i, table (path k m') = some j := by
  obtain ⟨m, hslot, hbefore⟩ := h.placed i k hi
  have hm : m < n := by
    rcases Nat.lt_trichotomy m n with hlt | rfl | hgt
    · exact hlt
    · exact absurd (hslot.symm.trans hfirst.empty) (Option.some_ne_none _)
    · obtain ⟨j, -, hj⟩ := hbefore n hgt
      exact absurd (hj.symm.trans hfirst.empty) (Option.some_ne_none _)
  refine ⟨m, hm, hslot, fun l hl hslot' => ?_⟩
  obtain rfl := hpath l (Nat.lt_trans hl hn) m (Nat.lt_trans hm hn) (h.once _ _ i hslot' hslot)
  exact hbefore

variable [DecidableEq K]

/-- The rows of a key, in the order in which they were entered. -/
def rowsOf (rows : List K) (k : K) : List Nat :=
  (List.range rows.length).filter fun i => rows[i]? = some k

/-- The row at a slot, where it is one of the key. -/
def rowAt (table : Slot → Option Nat) (rows : List K) (k : K) (s : Slot) : Option Nat :=
  (table s).filter fun i => rows[i]? = some k

theorem rowAt_eq_some {s : Slot} {i : Nat} :
    rowAt table rows k s = some i ↔ table s = some i ∧ rows[i]? = some k := by
  rw [rowAt, Option.filter_eq_some_iff, decide_eq_true_iff]

theorem mem_rowsOf {i : Nat} : i ∈ rowsOf rows k ↔ rows[i]? = some k := by
  rw [rowsOf, List.mem_filter, decide_eq_true_iff, List.mem_range]
  exact ⟨fun h => h.2, fun h => ⟨(List.getElem?_eq_some_iff.1 h).1, h⟩⟩

theorem rowsOf_pairwise : (rowsOf rows k).Pairwise (· < ·) :=
  List.Pairwise.filter _ List.pairwise_lt_range

/-- The rows of a key on its path, from a place on up to another. -/
def matchesFrom (path : K → Nat → Slot) (table : Slot → Option Nat) (rows : List K) (k : K)
    (m n : Nat) : List Nat :=
  (List.range' m (n - m)).filterMap fun m => rowAt table rows k (path k m)

theorem matchesFrom_self : matchesFrom path table rows k n n = [] := by
  rw [matchesFrom, Nat.sub_self]
  rfl

/-- One slot of a walk. -/
theorem matchesFrom_turn {m i : Nat} {stored : K} (hm : m < n) (hslot : table (path k m) = some i)
    (hrow : rows[i]? = some stored) :
    matchesFrom path table rows k m n =
      if stored = k then i :: matchesFrom path table rows k (m + 1) n
      else matchesFrom path table rows k (m + 1) n := by
  have hone : n - m = n - (m + 1) + 1 := by omega
  rw [matchesFrom, hone, List.range'_succ, List.filterMap_cons]
  by_cases heq : stored = k
  · rw [if_pos heq, rowAt_eq_some.2 ⟨hslot, hrow.trans (congrArg some heq)⟩]
    rfl
  · have hnone : rowAt table rows k (path k m) = none := by
      rw [Option.eq_none_iff_forall_ne_some]
      intro j hj
      obtain ⟨hslot', hrow'⟩ := rowAt_eq_some.1 hj
      obtain rfl := Option.some.inj (hslot.symm.trans hslot')
      exact heq (Option.some.inj (hrow.symm.trans hrow'))
    rw [if_neg heq, hnone]
    rfl

/-- **A walk up to the first empty slot** meets the rows of the key in their order. -/
theorem WellFormed.walk_eq {capacity : Nat} (h : WellFormed path table rows)
    (hpath : ∀ m < capacity, ∀ n < capacity, path k m = path k n → m = n)
    (hfirst : FirstEmpty path table k n) (hn : n < capacity) :
    matchesFrom path table rows k 0 n = rowsOf rows k := by
  rw [matchesFrom, Nat.sub_zero, ← List.range_eq_range']
  have hsorted : ((List.range n).filterMap fun m => rowAt table rows k (path k m)).Pairwise
      (· < ·) := by
    refine List.Pairwise.filterMap _ ?_
      (List.Pairwise.imp_of_mem (fun {a b} _ hb hab => (⟨hab, List.mem_range.1 hb⟩ : a < b ∧ b < n))
        List.pairwise_lt_range)
    rintro m m' ⟨hm, hm'⟩ i hi i' hi'
    obtain ⟨hslot, -⟩ := rowAt_eq_some.1 hi
    obtain ⟨hslot', hrow'⟩ := rowAt_eq_some.1 hi'
    obtain ⟨-, -, -, hbefore⟩ := h.depth_of_mem hpath hfirst hn hrow'
    obtain ⟨j, hj, hold⟩ := hbefore m' hm' hslot' m hm
    obtain rfl := Option.some.inj (hslot.symm.trans hold)
    exact hj
  refine List.Perm.eq_of_pairwise (fun a b _ _ hab hba => absurd hab (Nat.lt_asymm hba)) hsorted
    rowsOf_pairwise ?_
  refine (List.perm_ext_iff_of_nodup (hsorted.imp Nat.ne_of_lt)
    (rowsOf_pairwise.imp Nat.ne_of_lt)).2 fun i => ?_
  rw [mem_rowsOf, List.mem_filterMap]
  constructor
  · rintro ⟨m, -, hi⟩
    exact (rowAt_eq_some.1 hi).2
  · intro hi
    obtain ⟨m, hm, hslot, -⟩ := h.depth_of_mem hpath hfirst hn hi
    exact ⟨m, List.mem_range.2 hm, rowAt_eq_some.2 ⟨hslot, hi⟩⟩

end RepeatedProbes
end PgYaap
