import Mathlib

/-! # Open addressing

A table of slots keeps the indices of rows, each with a tag. Every key has a sequence of slots
of its own, its path, and is looked for along the path up to the first empty slot; a new row is
entered there. As slots are never emptied, what was true of the slots behind a probe stays true,
whatever other rows are entered in between. -/
namespace PgYaap
namespace ProbedTables

variable {K T Slot : Type}

/-- The slots: the tag and the index of a row, or nothing. -/
abbrev Table (T Slot : Type) := Slot → Option (T × Nat)

section Tables

variable (path : K → Nat → Slot) (tag : K → T)

/-- **A table of rows**: every slot that is taken has the tag of its row, every row is found
before the first empty slot of its path, and no two rows are equal. -/
structure WellFormed (table : Table T Slot) (rows : List K) : Prop where
  nodup : rows.Nodup
  sound : ∀ (s : Slot) (t : T) (i : Nat), table s = some (t, i) →
    ∃ k, rows[i]? = some k ∧ t = tag k
  placed : ∀ (i : Nat) (k : K), rows[i]? = some k →
    ∃ n, table (path k n) = some (tag k, i) ∧ ∀ m < n, table (path k m) ≠ none
  once : ∀ (s s' : Slot) (t t' : T) (i : Nat), table s = some (t, i) → table s' = some (t', i) →
    s = s'

/-- The first slots of the path of a key are taken by other rows. -/
def PassedBy (table : Table T Slot) (rows : List K) (k : K) (n : Nat) : Prop :=
  ∀ m < n, ∃ (t : T) (i : Nat), table (path k m) = some (t, i) ∧ rows[i]? ≠ some k

variable {path tag} {table : Table T Slot} {rows : List K} {k : K} {n : Nat}

theorem wellFormed_empty : WellFormed path tag (fun _ => none : Table T Slot) [] :=
  ⟨List.nodup_nil, fun _ _ _ h => absurd h (by simp), fun _ _ h => absurd h (by simp),
    fun _ _ _ _ _ h => absurd h (by simp)⟩

theorem passedBy_zero : PassedBy path table rows k 0 := fun _ hm => absurd hm (Nat.not_lt_zero _)

theorem PassedBy.ne_none (h : PassedBy path table rows k n) :
    ∀ m < n, table (path k m) ≠ none := by
  intro m hm
  obtain ⟨t, i, hslot, -⟩ := h m hm
  rw [hslot]
  exact Option.some_ne_none _

/-- One slot further, past another row. -/
theorem PassedBy.succ (h : PassedBy path table rows k n) {t : T} {i : Nat}
    (hslot : table (path k n) = some (t, i)) (hne : rows[i]? ≠ some k) :
    PassedBy path table rows k (n + 1) := by
  intro m hm
  rcases Nat.lt_succ_iff_lt_or_eq.1 hm with hlt | rfl
  · exact h m hlt
  · exact ⟨t, i, hslot, hne⟩

/-- A slot with another tag is that of another row. -/
theorem WellFormed.ne_of_tag_ne (h : WellFormed path tag table rows) {s : Slot} {t : T} {i : Nat}
    (hslot : table s = some (t, i)) (htag : t ≠ tag k) : rows[i]? ≠ some k := by
  intro hrow
  obtain ⟨k', hk', ht⟩ := h.sound s t i hslot
  obtain rfl := Option.some.inj (hk'.symm.trans hrow)
  exact htag ht

/-- **A probe that meets an empty slot looks for a new key.** -/
theorem WellFormed.not_mem (h : WellFormed path tag table rows)
    (hpassed : PassedBy path table rows k n) (hempty : table (path k n) = none) : k ∉ rows := by
  intro hmem
  obtain ⟨i, hi⟩ := List.mem_iff_getElem?.1 hmem
  obtain ⟨n', hslot, hbefore⟩ := h.placed i k hi
  rcases Nat.lt_trichotomy n' n with hlt | rfl | hgt
  · obtain ⟨t, i', hslot', hne⟩ := hpassed n' hlt
    obtain ⟨-, rfl⟩ := Prod.mk.inj (Option.some.inj (hslot.symm.trans hslot'))
    exact hne hi
  · rw [hempty] at hslot
    exact absurd hslot (Option.some_ne_none _).symm
  · exact hbefore n hgt hempty

/-- A row of the key at a slot of the path is the row of the key. -/
theorem WellFormed.index_eq (h : WellFormed path tag table rows) {i j : Nat}
    (hi : rows[i]? = some k) (hj : rows[j]? = some k) : i = j := by
  have hlt := (List.getElem?_eq_some_iff.1 hi).1
  exact (List.getElem?_inj hlt h.nodup).1 (hi.trans hj.symm)

/-- **With more slots than rows a path meets an empty slot.** -/
theorem WellFormed.exists_empty (h : WellFormed path tag table rows) {capacity : Nat}
    (hpath : ∀ m < capacity, ∀ n < capacity, path k m = path k n → m = n)
    (hroom : rows.length < capacity) : ∃ n < capacity, table (path k n) = none := by
  by_contra hfull
  have htaken : ∀ m : Fin capacity, ∃ i : Fin rows.length, ∃ t : T,
      table (path k m) = some (t, i.val) := by
    intro m
    cases hslot : table (path k m) with
    | none => exact absurd ⟨m, m.isLt, hslot⟩ hfull
    | some entry =>
      obtain ⟨k', hk', -⟩ := h.sound _ entry.1 entry.2 hslot
      exact ⟨⟨entry.2, (List.getElem?_eq_some_iff.1 hk').1⟩, entry.1, rfl⟩
  choose index tagOf hindex using htaken
  have hinj : Function.Injective index := by
    intro m n heq
    have hm := hindex m
    rw [heq] at hm
    exact Fin.ext (hpath m m.isLt n n.isLt (h.once _ _ _ _ _ hm (hindex n)))
  have hcard := Fintype.card_le_of_injective index hinj
  rw [Fintype.card_fin, Fintype.card_fin] at hcard
  omega

/-- A round past other rows takes as many rows as it has slots. -/
theorem WellFormed.le_length_of_passedBy (h : WellFormed path tag table rows) {capacity : Nat}
    (hpath : ∀ m < capacity, ∀ n < capacity, path k m = path k n → m = n)
    (hpassed : PassedBy path table rows k capacity) : capacity ≤ rows.length := by
  by_contra hroom
  obtain ⟨n, hn, hempty⟩ := h.exists_empty hpath (Nat.lt_of_not_le hroom)
  exact hpassed.ne_none n hn hempty

/-- A key whose whole path is passed by is not in the table. -/
theorem WellFormed.not_mem_of_passedBy (h : WellFormed path tag table rows) {capacity : Nat}
    (hround : ∀ n, ∃ m < capacity, path k m = path k n)
    (hpassed : PassedBy path table rows k capacity) : k ∉ rows := by
  intro hmem
  obtain ⟨i, hi⟩ := List.mem_iff_getElem?.1 hmem
  obtain ⟨n, hslot, -⟩ := h.placed i k hi
  obtain ⟨m, hm, heq⟩ := hround n
  obtain ⟨t, j, hslot', hne⟩ := hpassed m hm
  rw [heq, hslot, Option.some.injEq, Prod.mk.injEq] at hslot'
  exact hne (hslot'.2 ▸ hi)

/-- **There are at most as many rows as slots.** -/
theorem WellFormed.length_le (h : WellFormed path tag table rows) {slots : Finset Slot}
    (hslots : ∀ k n, path k n ∈ slots) : rows.length ≤ slots.card := by
  have hplace : ∀ i : Fin rows.length, ∃ s ∈ slots, ∃ t, table s = some (t, i.val) := by
    intro i
    obtain ⟨n, hslot, -⟩ := h.placed i _ (List.getElem?_eq_getElem i.isLt)
    exact ⟨_, hslots _ n, _, hslot⟩
  choose slot hslot tagOf htaken using hplace
  have hinj : Set.InjOn slot (Finset.univ : Finset (Fin rows.length)) := by
    intro i _ j _ heq
    have hi := htaken i
    rw [heq, htaken j, Option.some.injEq, Prod.mk.injEq] at hi
    exact Fin.ext hi.2.symm
  have hcard := Finset.card_le_card_of_injOn slot (fun i _ => hslot i) hinj
  rwa [Finset.card_univ, Fintype.card_fin] at hcard

/-! ## New rows -/

variable [DecidableEq Slot]

/-- **A new row is entered** at the first empty slot of its path. -/
theorem WellFormed.insert (h : WellFormed path tag table rows) (hnew : k ∉ rows)
    (hbefore : ∀ m < n, table (path k m) ≠ none) (hempty : table (path k n) = none) :
    WellFormed path tag (Function.update table (path k n) (some (tag k, rows.length)))
      (rows ++ [k]) := by
  have hkept : ∀ s, table s ≠ none →
      Function.update table (path k n) (some (tag k, rows.length)) s = table s := by
    intro s hs
    refine Function.update_of_ne ?_ _ _
    rintro rfl
    exact hs hempty
  refine ⟨?_, ?_, ?_, ?_⟩
  · exact List.nodup_append'.2 ⟨h.nodup, List.nodup_singleton k, by simpa using hnew⟩
  · intro s t i hs
    by_cases heq : s = path k n
    · rw [heq, Function.update_self] at hs
      obtain ⟨rfl, rfl⟩ := Prod.mk.inj (Option.some.inj hs)
      exact ⟨k, List.getElem?_concat_length, rfl⟩
    · rw [Function.update_of_ne heq] at hs
      obtain ⟨k', hk', ht⟩ := h.sound s t i hs
      refine ⟨k', ?_, ht⟩
      rw [List.getElem?_append_left (List.getElem?_eq_some_iff.1 hk').1]
      exact hk'
  · intro i k' hi
    by_cases hlt : i < rows.length
    · rw [List.getElem?_append_left hlt] at hi
      obtain ⟨n', hslot, hbefore'⟩ := h.placed i k' hi
      refine ⟨n', ?_, fun m hm => ?_⟩
      · rw [hkept _ (by rw [hslot]; exact Option.some_ne_none _)]
        exact hslot
      · rw [hkept _ (hbefore' m hm)]
        exact hbefore' m hm
    · have hlength := (List.getElem?_eq_some_iff.1 hi).1
      rw [List.length_append, List.length_singleton] at hlength
      obtain rfl : i = rows.length := by omega
      rw [List.getElem?_concat_length] at hi
      obtain rfl := Option.some.inj hi
      refine ⟨n, Function.update_self _ _ _, fun m hm => ?_⟩
      rw [hkept _ (hbefore m hm)]
      exact hbefore m hm
  · -- the new slot is the only one with the index of the new row
    have hless : ∀ (s : Slot) (t : T) (i : Nat), table s = some (t, i) → i < rows.length := by
      intro s t i hs
      obtain ⟨k', hk', -⟩ := h.sound s t i hs
      exact (List.getElem?_eq_some_iff.1 hk').1
    intro s s' t t' i hs hs'
    by_cases heq : s = path k n
    · by_cases heq' : s' = path k n
      · rw [heq, heq']
      · rw [heq, Function.update_self] at hs
        rw [Function.update_of_ne heq'] at hs'
        obtain ⟨-, rfl⟩ := Prod.mk.inj (Option.some.inj hs)
        exact absurd (hless s' t' _ hs') (Nat.lt_irrefl _)
    · by_cases heq' : s' = path k n
      · rw [heq', Function.update_self] at hs'
        rw [Function.update_of_ne heq] at hs
        obtain ⟨-, rfl⟩ := Prod.mk.inj (Option.some.inj hs')
        exact absurd (hless s t _ hs) (Nat.lt_irrefl _)
      · rw [Function.update_of_ne heq] at hs
        rw [Function.update_of_ne heq'] at hs'
        exact h.once s s' t t' i hs hs'

/-- What another key has passed stays passed. -/
theorem PassedBy.insert (h : WellFormed path tag table rows) {k' : K} {n' : Nat}
    (hpassed : PassedBy path table rows k' n') (hempty : table (path k n) = none) :
    PassedBy path (Function.update table (path k n) (some (tag k, rows.length))) (rows ++ [k]) k'
      n' := by
  intro m hm
  obtain ⟨t, i, hslot, hne⟩ := hpassed m hm
  refine ⟨t, i, ?_, ?_⟩
  · rw [Function.update_of_ne, hslot]
    intro heq
    rw [heq, hempty] at hslot
    exact Option.some_ne_none _ hslot.symm
  · obtain ⟨k'', hk'', -⟩ := h.sound _ t i hslot
    rwa [List.getElem?_append_left (List.getElem?_eq_some_iff.1 hk'').1]

end Tables

end ProbedTables
end PgYaap
