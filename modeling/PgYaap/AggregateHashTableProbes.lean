import PgYaap.AggregateHashTable

/-! # Probing the hash table of the aggregate

The slots a hash is looked for in are the path of the group, and no slot comes twice within a
round. From there the probe loop ends at the row of the group, or at an empty slot, or after a
round past other groups; the rehash enters every row at the first empty slot of its path. -/
namespace PgYaap

open ColumnSlots AggregateStates HashJoinBuild ProbedTables TupleDataCollection

namespace AggregateHashTable

/-! ## Paths -/

/-- The slots in which a group is looked for. -/
def path (capacity : Nat) (values : List Datum) (n : Nat) : Nat :=
  ((hashColumns values).toUInt32.toNat + n * probeStep (hashColumns values)) % capacity

/-- The salt of a group. -/
def tag (values : List Datum) : UInt16 := hashSalt (hashColumns values)

theorem capacity_pos (aht : AggregateHashTable) : 0 < aht.capacity := by
  obtain ⟨k, hk⟩ := aht.powerOfTwo
  rw [hk]
  exact Nat.two_pow_pos k

theorem masked (aht : AggregateHashTable) (n : Nat) :
    n &&& (aht.capacity - 1) = n % aht.capacity := by
  obtain ⟨k, hk⟩ := aht.powerOfTwo
  rw [hk]
  exact Nat.and_two_pow_sub_one_eq_mod n k

theorem firstSlot_eq (aht : AggregateHashTable) (values : List Datum) :
    aht.firstSlot (hashColumns values) = path aht.capacity values 0 := by
  rw [firstSlot, masked, path, Nat.zero_mul, Nat.add_zero]

theorem nextSlot_eq (aht : AggregateHashTable) (values : List Datum) (n : Nat) :
    aht.nextSlot (hashColumns values) (path aht.capacity values n) =
      path aht.capacity values (n + 1) := by
  rw [nextSlot, masked, path, path, Nat.mod_add_mod, Nat.succ_mul, Nat.add_assoc]

theorem probeStep_odd (hash : UInt64) : probeStep hash % 2 = 1 := by
  have hnat : probeStep hash = ((hash >>> 59).toNat ||| 1) % 2 ^ 32 := by
    rw [probeStep, UInt64.toNat_toUInt32, UInt64.toNat_or]
    rfl
  have hlow : (hash >>> 59).toNat % 2 < 2 := Nat.mod_lt _ Nat.two_pos
  have hor : ((hash >>> 59).toNat ||| 1) % 2 = (hash >>> 59).toNat % 2 ||| 1 % 2 :=
    @Nat.or_mod_two_pow (hash >>> 59).toNat 1 1
  have hone : (hash >>> 59).toNat % 2 ||| 1 % 2 = 1 := by
    interval_cases h : (hash >>> 59).toNat % 2 <;> rfl
  omega

/-- **A path meets no slot twice within a round.** -/
theorem path_inj (aht : AggregateHashTable) (values : List Datum) :
    ∀ m < aht.capacity, ∀ n < aht.capacity,
      path aht.capacity values m = path aht.capacity values n → m = n := by
  obtain ⟨k, hk⟩ := aht.powerOfTwo
  have hcoprime : Nat.gcd aht.capacity (probeStep (hashColumns values)) = 1 := by
    rw [hk]
    apply Nat.Coprime.pow_left
    rw [Nat.coprime_two_left]
    exact Nat.odd_iff.2 (probeStep_odd _)
  intro m hm n hn h
  have hsteps := Nat.ModEq.add_left_cancel' _ h
  have hmod := Nat.ModEq.cancel_right_of_coprime hcoprime hsteps
  exact Nat.ModEq.eq_of_lt_of_lt hmod hm hn

/-- After a round the path comes to the same slots again. -/
theorem path_round (aht : AggregateHashTable) (values : List Datum) (n : Nat) :
    ∃ m < aht.capacity, path aht.capacity values m = path aht.capacity values n := by
  refine ⟨n % aht.capacity, Nat.mod_lt _ aht.capacity_pos, ?_⟩
  have hmod : n % aht.capacity ≡ n [MOD aht.capacity] := Nat.mod_modEq _ _
  exact (hmod.mul_right _).add_left _

theorem path_mem (aht : AggregateHashTable) (values : List Datum) (n : Nat) :
    path aht.capacity values n ∈ Finset.range aht.capacity :=
  Finset.mem_range.2 (Nat.mod_lt _ aht.capacity_pos)

/-- **The directory indexes groups**: every group is entered once, on its path. -/
abbrev Indexes (aht : AggregateHashTable) (groups : List (List Datum)) : Prop :=
  WellFormed (path aht.capacity) tag aht.entries groups

variable {aht aht' : AggregateHashTable} {groups : List (List Datum)}

theorem Indexes.length_le (h : Indexes aht groups) : groups.length ≤ aht.capacity := by
  have hle := WellFormed.length_le h (aht.path_mem)
  rwa [Finset.card_range] at hle

/-- A table without entries. -/
theorem indexes_nil (h : ∀ slot, aht.entries slot = none) : Indexes aht [] := by
  have hempty : aht.entries = fun _ => none := funext h
  rw [Indexes, hempty]
  exact wellFormed_empty

/-- A new group is entered at an empty slot of its path. -/
theorem Indexes.setEntry (h : Indexes aht groups) {k : List Datum} {n : Nat}
    (hpassed : PassedBy (path aht.capacity) aht.entries groups k n)
    (hempty : aht.entries (path aht.capacity k n) = none) :
    Indexes (aht.setEntry (path aht.capacity k n) (tag k) groups.length) (groups ++ [k]) :=
  WellFormed.insert h (WellFormed.not_mem h hpassed hempty) hpassed.ne_none hempty

/-! ## Probes -/

/-- What a probe for a group comes to. -/
inductive ProbeEnds (aht : AggregateHashTable) (groups : List (List Datum)) (k : List Datum) :
    ProbeOutcome → Prop
  | found {i : Nat} (hi : groups[i]? = some k) : ProbeEnds aht groups k (.found i)
  | empty {n : Nat} (hempty : aht.entries (path aht.capacity k n) = none)
      (hpassed : PassedBy (path aht.capacity) aht.entries groups k n) :
      ProbeEnds aht groups k (.empty (path aht.capacity k n))
  | full (hpassed : PassedBy (path aht.capacity) aht.entries groups k aht.capacity) :
      ProbeEnds aht groups k .full

theorem probeFrom_ends (h : Indexes aht groups) {k : List Datum} {isMatch : Nat → Bool}
    (hmatch : ∀ i < groups.length, isMatch i = true ↔ groups[i]? = some k) (tries : Nat) :
    ∀ n, n + tries = aht.capacity → PassedBy (path aht.capacity) aht.entries groups k n →
      ProbeEnds aht groups k
        (probeFrom aht (hashColumns k) isMatch (path aht.capacity k n) tries) := by
  induction tries with
  | zero =>
    intro n hn hpassed
    rw [Nat.add_zero] at hn
    exact ProbeEnds.full (hn ▸ hpassed)
  | succ tries ih =>
    intro n hn hpassed
    rw [probeFrom]
    cases hslot : aht.entries (path aht.capacity k n) with
    | none => exact ProbeEnds.empty hslot hpassed
    | some entry =>
      obtain ⟨salt, i⟩ := entry
      dsimp only
      obtain ⟨k', hk', -⟩ := h.sound _ _ _ hslot
      have hi := (List.getElem?_eq_some_iff.1 hk').1
      split
      · rename_i hcond
        exact ProbeEnds.found ((hmatch i hi).1 hcond.2)
      · -- another group: its salt differs, or the comparison failed
        rename_i hcond
        have hne : groups[i]? ≠ some k := by
          intro hk
          apply hcond
          refine ⟨?_, (hmatch i hi).2 hk⟩
          by_contra hsalt
          exact h.ne_of_tag_ne hslot hsalt hk
        rw [nextSlot_eq]
        exact ih (n + 1) (by omega) (hpassed.succ hslot hne)

/-- **A probe** ends at the row of its group, at an empty slot, or after a round. -/
theorem probe_ends (h : Indexes aht groups) {k : List Datum} {isMatch : Nat → Bool}
    (hmatch : ∀ i < groups.length, isMatch i = true ↔ groups[i]? = some k) :
    ProbeEnds aht groups k (aht.probe (hashColumns k) isMatch) := by
  rw [probe, firstSlot_eq]
  exact probeFrom_ends h hmatch aht.capacity 0 (Nat.zero_add _) passedBy_zero

/-- A probe of a table with a free slot does not end after a round. -/
theorem ProbeEnds.ne_full (h : Indexes aht groups) {k : List Datum}
    (hroom : groups.length < aht.capacity) {outcome : ProbeOutcome}
    (hends : ProbeEnds aht groups k outcome) : outcome ≠ .full := by
  rintro rfl
  cases hends with
  | full hpassed =>
    have hle := h.le_length_of_passedBy (aht.path_inj k) hpassed
    omega

/-- The group is missing where the probe does not find it. -/
theorem ProbeEnds.not_mem (h : Indexes aht groups) {k : List Datum} {outcome : ProbeOutcome}
    (hends : ProbeEnds aht groups k outcome) (hfound : ∀ i, outcome ≠ .found i) : k ∉ groups := by
  cases hends with
  | found hi => exact absurd rfl (hfound _)
  | empty hempty hpassed => exact h.not_mem hpassed hempty
  | full hpassed => exact h.not_mem_of_passedBy (aht.path_round k) hpassed

/-- A probe ends at a row exactly where the row has the group. -/
theorem ProbeEnds.found_iff (h : Indexes aht groups) {k : List Datum}
    {outcome : ProbeOutcome} (hends : ProbeEnds aht groups k outcome) {i : Nat} :
    outcome = .found i ↔ groups[i]? = some k := by
  constructor
  · rintro rfl
    cases hends with
    | found hi => exact hi
  · intro hi
    by_contra hne
    cases hends with
    | found hj => exact hne (congrArg _ (h.index_eq hj hi))
    | empty hempty hpassed => exact h.not_mem hpassed hempty (List.mem_of_getElem? hi)
    | full hpassed =>
      exact h.not_mem_of_passedBy (aht.path_round k) hpassed (List.mem_of_getElem? hi)

/-! ## Rehashing -/

section Rehash

variable {layout : AggregateLayout} {t : TupleDataCollection} {rows : List (StoredRow layout)}

/-- One turn of the rehash enters the next group. -/
theorem rehashRow_indexes (hrows : HoldsRows layout t rows) (h : Indexes aht groups)
    {row : StoredRow layout} (hrow : rows[groups.length]? = some row) (hnew : row.1 ∉ groups)
    (hok : rehashRow layout t aht groups.length = .ok aht') :
    Indexes aht' (groups ++ [row.1]) ∧ aht'.capacity = aht.capacity := by
  have hhash := (hrows.row _ _ hrow).hash
  have hends := @probe_ends aht groups h row.1 (fun _ => false) fun i _ =>
    ⟨fun hfalse => absurd hfalse Bool.false_ne_true,
      fun hi => absurd (List.mem_of_getElem? hi) hnew⟩
  unfold rehashRow at hok
  rw [hhash] at hok
  dsimp only at hok
  generalize aht.probe (hashColumns row.1) (fun _ => false) = outcome at hends hok
  cases hends with
  | found hi => exact absurd (List.mem_of_getElem? hi) hnew
  | empty hempty hpassed =>
    obtain rfl := Except.ok.inj hok
    exact ⟨h.setEntry hpassed hempty, rfl⟩
  | full hpassed => cases hok

/-- The loop of the rehash over the first rows. -/
theorem rehashRows_indexes (hrows : HoldsRows layout t rows)
    (hnodup : (rows.map Prod.fst).Nodup) {n : Nat} (hn : n ≤ rows.length)
    (hok : (List.range n).foldlM (rehashRow layout t) { aht with entries := fun _ => none } =
      .ok aht') :
    Indexes aht' ((rows.take n).map Prod.fst) ∧ aht'.capacity = aht.capacity := by
  induction n generalizing aht' with
  | zero =>
    obtain rfl := Except.ok.inj hok
    exact ⟨indexes_nil fun _ => rfl, rfl⟩
  | succ n ih =>
    obtain ⟨mid, hmid, hturn⟩ := foldlM_range_succ hok
    obtain ⟨hindexes, hcapacity⟩ := ih (by omega) hmid
    have htake : (rows.take (n + 1)).map Prod.fst =
        (rows.take n).map Prod.fst ++ [(rows.get ⟨n, hn⟩).1] := by
      rw [List.take_succ_eq_append_getElem hn, List.map_append]
      rfl
    have hlength : ((rows.take n).map Prod.fst).length = n := by
      rw [List.length_map, List.length_take]
      omega
    have hsub := (List.take_sublist (n + 1) rows).map Prod.fst
    have hdistinct := hnodup.sublist hsub
    rw [htake, List.nodup_append'] at hdistinct
    have hrow : rows[((rows.take n).map Prod.fst).length]? = some (rows.get ⟨n, hn⟩) := by
      rw [hlength]
      exact List.getElem?_eq_getElem hn
    have hstep := rehashRow_indexes hrows hindexes hrow (List.disjoint_singleton.1 hdistinct.2.2)
      (by rw [hlength]; exact hturn)
    rw [htake]
    exact ⟨hstep.1, hstep.2.trans hcapacity⟩

/-- **After a rehash the directory indexes the rows.** -/
theorem rehash_indexes (hrows : HoldsRows layout t rows) (hnodup : (rows.map Prod.fst).Nodup)
    (hok : rehash layout aht t = .ok aht') :
    Indexes aht' (rows.map Prod.fst) ∧ aht'.capacity = aht.capacity := by
  unfold rehash at hok
  rw [hrows.rowCount] at hok
  have hall := rehashRows_indexes hrows hnodup (Nat.le_refl _) hok
  rwa [List.take_length] at hall

end Rehash

end AggregateHashTable
end PgYaap
