import PgYaap.AggregateBatchSteps

/-! # The run of a batch

A batch ends with a result for every input, unless there is no room for its new groups in the
row store, its heap or the directory; then it raises an error, and whether it does depends on the
new groups only, not on the order of the inputs. -/
namespace PgYaap

open ColumnSlots AggregateStates HashJoinBuild ProbedTables TupleDataCollection

namespace AggregateHashTable
namespace Batch

variable {layout : AggregateLayout} {b : Batch layout}

/-! ## Room -/

variable (b) in
/-- The groups of the batch that the table does not have, once each. -/
def newGroups : List (List Datum) :=
  ((b.inputs.map b.group).filter fun k => k ∉ b.rows.map Prod.fst).dedup

variable (b) in
/-- There is room for the new groups. -/
structure Room : Prop where
  rows : b.rows.length + b.newGroups.length ≤ b.tdc.rowCapacity
  slots : b.rows.length + b.newGroups.length ≤ b.aht.capacity
  heap : b.tdc.heapUsed + (b.newGroups.map rowHeapBytes).sum ≤ b.tdc.heapCapacity

variable (b) in
theorem newGroups_nodup : b.newGroups.Nodup := List.nodup_dedup _

theorem mem_newGroups {k : List Datum} :
    k ∈ b.newGroups ↔ (∃ input ∈ b.inputs, b.group input = k) ∧ k ∉ b.rows.map Prod.fst := by
  rw [newGroups, List.mem_dedup, List.mem_filter, List.mem_map, decide_eq_true_iff]

/-- Lists without duplicates, one within the other. -/
theorem sum_le_of_subset {l l' : List (List Datum)} (hnodup : l.Nodup) (hsub : l ⊆ l') :
    l.length ≤ l'.length ∧ (l.map rowHeapBytes).sum ≤ (l'.map rowHeapBytes).sum := by
  have hsubperm := List.subperm_of_subset hnodup hsub
  obtain ⟨mid, hperm, hmid⟩ := hsubperm
  refine ⟨List.Subperm.length_le ⟨mid, hperm, hmid⟩, ?_⟩
  rw [← (hperm.map rowHeapBytes).sum_eq]
  exact (hmid.map rowHeapBytes).sum_le_sum fun _ _ => Nat.zero_le _

variable {st : BatchState} {added : List (List Datum)} {r : Nat} {p : Probe}
  {done rest : List Probe}

theorem Working.rows_length (h : b.Working st added) :
    st.tdc.rowCount = b.rows.length + added.length ∧
      (b.groups added).length = b.rows.length + added.length := by
  rw [h.holds.rowCount, rowsWith, groups, List.length_append, List.length_append, List.length_map,
    List.length_map]
  exact ⟨rfl, rfl⟩

theorem Working.input_of_added (h : b.Working st added) {k : List Datum} (hk : k ∈ added) :
    ∃ input ∈ b.inputs, b.group input = k := by
  obtain ⟨i, input, res, hinput, hgroup, -⟩ := h.inserter k hk
  exact ⟨input, List.mem_of_getElem? hinput, hgroup⟩

/-- **Where there is room, there is room for the next new group.** -/
theorem Working.room_next (h : b.Working st added) (hroom : b.Room) {k : List Datum}
    (hnew : k ∉ b.groups added) (hinput : ∃ input ∈ b.inputs, b.group input = k) :
    st.tdc.rowCount < st.tdc.rowCapacity ∧ (b.groups added).length < st.aht.capacity ∧
      st.tdc.heapUsed + rowHeapBytes k ≤ st.tdc.heapCapacity := by
  have hnodup : (b.groups added).Nodup := h.indexes.nodup
  rw [groups, List.nodup_append'] at hnodup
  rw [groups, List.mem_append, not_or] at hnew
  have hall : (added ++ [k]).Nodup := by
    refine List.nodup_append'.2 ⟨hnodup.2.1, List.nodup_singleton k, ?_⟩
    exact List.disjoint_singleton.2 hnew.2
  have hsub : added ++ [k] ⊆ b.newGroups := by
    intro k' hk'
    rcases List.mem_append.1 hk' with hold | hlast
    · refine mem_newGroups.2 ⟨h.input_of_added hold, fun hrow => ?_⟩
      exact hnodup.2.2 hrow hold
    · rw [List.mem_singleton.1 hlast]
      exact mem_newGroups.2 ⟨hinput, hnew.1⟩
  have hle := sum_le_of_subset hall hsub
  rw [List.length_append, List.length_singleton, List.map_append, List.sum_append,
    List.map_singleton, List.sum_singleton] at hle
  have hlength := h.rows_length
  rw [hlength.1, hlength.2, h.rowCapacity, h.capacity, h.heapUsed, h.heapCapacity]
  have hrows := hroom.rows
  have hslots := hroom.slots
  have hheap := hroom.heap
  refine ⟨?_, ?_, ?_⟩ <;> omega

/-- **A batch that ends had room.** -/
theorem Working.room_of_done (h : b.Working st added)
    (hdone : ∀ j < b.inputs.length, ∃ res, st.results j = some res) : b.Room := by
  have hsub : b.newGroups ⊆ added := by
    intro k hk
    obtain ⟨⟨input, hinput, hgroup⟩, hnew⟩ := mem_newGroups.1 hk
    obtain ⟨j, hj⟩ := List.mem_iff_getElem?.1 hinput
    obtain ⟨res, hres⟩ := hdone j (List.getElem?_eq_some_iff.1 hj).1
    obtain ⟨input', hinput', hright⟩ := h.right j res hres
    obtain rfl := Option.some.inj (hj.symm.trans hinput')
    have hmem := List.mem_of_getElem? hright.canonical
    rw [hgroup] at hmem
    exact (List.mem_append.1 hmem).resolve_left hnew
  have hle := sum_le_of_subset b.newGroups_nodup hsub
  have hlength := h.rows_length
  have hcount := h.holds.count_le
  have hslots := h.indexes.length_le
  have hheap := h.holds.heap_le
  rw [hlength.1, h.rowCapacity] at hcount
  rw [hlength.2, h.capacity] at hslots
  rw [h.heapUsed, h.heapCapacity] at hheap
  refine ⟨?_, ?_, ?_⟩ <;> omega

/-- A row matches an input exactly when it has its group. -/
theorem Working.match_iff (h : b.Working st added) {i : Nat} (hi : i < (b.groups added).length)
    (input : BatchProbeInput) :
    matchGroupAt layout.toTupleDataLayout st.tdc i (b.chunk, input.rowIdx) = true ↔
      (b.groups added)[i]? = some (b.group input) := by
  obtain ⟨k, hk⟩ : ∃ k, (b.groups added)[i]? = some k := ⟨_, List.getElem?_eq_getElem hi⟩
  have hrow := hk
  rw [← rowsWith_fst, List.getElem?_map, Option.map_eq_some_iff] at hrow
  obtain ⟨row, hrow, rfl⟩ := hrow
  rw [hk, Option.some.injEq]
  exact (h.holds.row _ _ hrow).match_iff (b.chunk, input.rowIdx)

/-- **A row for a new group**: appending and filling it fails only where there is no room. -/
theorem Working.append_or_no_room (h : b.Working st added) {input : BatchProbeInput}
    (hinput : input ∈ b.inputs) (hnew : b.group input ∉ b.groups added) :
    (st.tdc.appendRow = none ∧ ¬ b.Room) ∨ ∃ dst candidate,
      st.tdc.appendRow = some (dst, candidate) ∧
      ((∃ e, scatterGroup layout dst candidate (b.chunk, input.rowIdx) = .error e ∧ ¬ b.Room) ∨
        ∃ t', scatterGroup layout dst candidate (b.chunk, input.rowIdx) = .ok t') := by
  have hnext := fun hroom => h.room_next hroom hnew ⟨input, hinput, rfl⟩
  cases happ : st.tdc.appendRow with
  | none =>
    refine Or.inl ⟨rfl, fun hroom => ?_⟩
    unfold appendRow at happ
    rw [if_neg (Nat.not_le_of_lt (hnext hroom).1)] at happ
    cases happ
  | some x =>
    obtain ⟨dst, candidate⟩ := x
    refine Or.inr ⟨dst, candidate, rfl, ?_⟩
    cases hscatter : scatterGroup layout dst candidate (b.chunk, input.rowIdx) with
    | error e =>
      refine Or.inl ⟨e, rfl, fun hroom => ?_⟩
      obtain ⟨-, hdst, -⟩ := appendRow_eq happ
      have hfits := @scatterGroup_of_fits layout dst candidate (b.chunk, input.rowIdx)
      obtain ⟨t', ht'⟩ := hfits (by rw [hdst]; exact (hnext hroom).2.2)
      rw [hscatter] at ht'
      cases ht'
    | ok t' => exact Or.inr ⟨t', rfl⟩

/-! ## Vectors -/

/-- Slots are never emptied. -/
def Keeps (aht aht' : AggregateHashTable) : Prop :=
  ∀ slot, aht.entries slot ≠ none → aht'.entries slot ≠ none

/-- An input that has tried all slots: the directory is full, and the group is new. -/
theorem AtSlot.no_room (hw : b.Working st added) (h : b.AtSlot st added r p)
    (htries : st.aht.capacity ≤ r) : ¬ b.Room := by
  intro hroom
  have hpassed : PassedBy (path st.aht.capacity) st.aht.entries (b.groups added)
      (b.group p.input) st.aht.capacity := fun m hm => h.passed m (by omega)
  have hnew := hw.indexes.not_mem_of_passedBy (st.aht.path_round _) hpassed
  have hfull := hw.indexes.le_length_of_passedBy (st.aht.path_inj _) hpassed
  have hnext := hw.room_next hroom hnew ⟨_, List.mem_of_getElem? h.input, rfl⟩
  omega

/-- **A lane.** -/
theorem probeLane_spec {s : LaneState} {entry : Option (UInt16 × Nat)}
    (h : b.Lanes s.toBatchState added r (done ++ s.deferred) s.compared (p :: rest))
    (hentry : entry ≠ none → s.aht.entries p.slot ≠ none) :
    (∃ e, probeLane layout b.chunk s (p, entry) = .error e ∧ ¬ b.Room) ∨
    ∃ s' added', probeLane layout b.chunk s (p, entry) = .ok s' ∧
      b.Lanes s'.toBatchState added' r (done ++ s'.deferred) s'.compared rest ∧
      Keeps s.aht s'.aht := by
  have hp := h.restAt p List.mem_cons_self
  have hw := h.working
  unfold probeLane
  dsimp only
  cases hslot : s.aht.entries p.slot with
  | none =>
    have hnone : entry = none := by
      by_contra hsome
      exact hentry hsome hslot
    rw [if_pos ⟨hnone, rfl⟩]
    have hnew : b.group p.input ∉ b.groups added :=
      hw.indexes.not_mem hp.passed (hp.slot ▸ hslot)
    rcases hw.append_or_no_room (List.mem_of_getElem? hp.input) hnew with
      ⟨happ, hno⟩ | ⟨dst, candidate, happ, ⟨e, hscatter, hno⟩ | ⟨t', hscatter⟩⟩
    · rw [happ]
      exact Or.inl ⟨_, rfl, hno⟩
    · rw [happ]
      dsimp only
      rw [hscatter]
      exact Or.inl ⟨e, rfl, hno⟩
    · rw [happ]
      dsimp only
      rw [hscatter]
      refine Or.inr ⟨_, _, rfl, h.insert hslot happ hscatter, fun slot hne => ?_⟩
      change Function.update _ _ _ _ ≠ _
      by_cases heq : slot = p.slot
      · rw [heq, Function.update_self]
        exact Option.some_ne_none _
      · rw [Function.update_of_ne heq]
        exact hne
  | some found =>
    obtain ⟨salt, i⟩ := found
    rw [if_neg fun hboth => Option.some_ne_none _ hboth.2]
    dsimp only
    by_cases hsalt : salt = hashSalt p.input.hash
    · rw [if_pos hsalt]
      exact Or.inr ⟨_, _, rfl, h.compare (hsalt ▸ hslot), fun _ hne => hne⟩
    · rw [if_neg hsalt]
      have hdefer := h.defer hslot hsalt
      rw [List.append_assoc] at hdefer
      exact Or.inr ⟨_, _, rfl, hdefer, fun _ hne => hne⟩

/-- **The lanes of a vector**, with the entries that were loaded before. -/
theorem probeLanes_spec {loaded : AggregateHashTable} (probes : List Probe) :
    ∀ {s : LaneState} {added : List (List Datum)},
      b.Lanes s.toBatchState added r (done ++ s.deferred) s.compared (probes ++ rest) →
      Keeps loaded s.aht →
      (∃ e, (probes.map fun p => (p, loaded.entries p.slot)).foldlM (probeLane layout b.chunk) s =
        .error e ∧ ¬ b.Room) ∨
      ∃ s' added', (probes.map fun p => (p, loaded.entries p.slot)).foldlM
          (probeLane layout b.chunk) s = .ok s' ∧
        b.Lanes s'.toBatchState added' r (done ++ s'.deferred) s'.compared rest := by
  induction probes with
  | nil => exact fun h _ => Or.inr ⟨_, _, rfl, h⟩
  | cons p probes ih =>
    intro s added h hkeeps
    rw [List.map_cons, List.foldlM_cons]
    rcases probeLane_spec h (hkeeps p.slot) with ⟨e, herror, hno⟩ | ⟨s', added', hok, hs', hk'⟩
    · rw [herror]
      exact Or.inl ⟨e, rfl, hno⟩
    · rw [hok]
      exact ih hs' fun slot hne => hk' slot (hkeeps slot hne)

/-- **The comparisons of a vector.** -/
theorem resolveCompared_spec (matched : Probe × Nat → Bool) (compared : List (Probe × Nat)) :
    ∀ {st : BatchState} {deferred : List Probe},
      b.Lanes st added r (done ++ deferred) compared rest →
      (∀ c ∈ compared, matched c = true ↔ (b.groups added)[c.2]? = some (b.group c.1.input)) →
      ∃ st' deferred', (compared.zip (compared.map matched)).foldl resolveCompared
          (st, deferred) = (st', deferred') ∧
        b.Lanes st' added r (done ++ deferred') [] rest := by
  induction compared with
  | nil => exact fun h _ => ⟨_, _, rfl, h⟩
  | cons c compared ih =>
    intro st deferred h hmatched
    have hc := hmatched c List.mem_cons_self
    have hrest := fun c' hc' => hmatched c' (List.mem_cons_of_mem c hc')
    rw [List.map_cons, List.zip_cons_cons, List.foldl_cons, resolveCompared]
    cases hm : matched c with
    | true =>
      rw [if_pos rfl]
      exact ih (h.found (hc.1 hm)) hrest
    | false =>
      rw [if_neg Bool.false_ne_true]
      have hnext := h.mismatch fun hfound => absurd (hc.2 hfound) (by rw [hm]; decide)
      rw [List.append_assoc] at hnext
      exact ih hnext hrest

/-- **A vector.** -/
theorem probeVector_spec (aarch64 : Bool) (probes : List Probe)
    (h : b.Lanes st added r done [] (probes ++ rest)) :
    (∃ e, probeVector aarch64 layout b.chunk st probes = .error e ∧ ¬ b.Room) ∨
    ∃ st' added' deferred, probeVector aarch64 layout b.chunk st probes = .ok (st', deferred) ∧
      b.Lanes st' added' r (done ++ deferred) [] rest := by
  unfold probeVector
  by_cases hfull : probes.any (fun p => st.aht.capacity ≤ p.tries) = true
  · rw [if_pos hfull]
    obtain ⟨p, hp, htries⟩ := List.any_eq_true.1 hfull
    have hat := h.restAt p (List.mem_append_left _ hp)
    refine Or.inl ⟨_, rfl, hat.no_room h.working ?_⟩
    rw [← hat.tries]
    exact of_decide_eq_true htries
  · rw [if_neg hfull]
    have hstart : b.Lanes (LaneState.mk st [] []).toBatchState added r (done ++ []) []
        (probes ++ rest) := by
      rw [List.append_nil]
      exact h
    rcases probeLanes_spec probes hstart fun _ hne => hne with
      ⟨e, herror, hno⟩ | ⟨s', added', hok, hs'⟩
    · rw [herror]
      exact Or.inl ⟨e, rfl, hno⟩
    · rw [hok]
      have hmatched : ∀ c ∈ s'.compared,
          matchLane layout.toTupleDataLayout s'.tdc b.chunk (some c.2, c.1.input.rowIdx) = true ↔
            (b.groups added')[c.2]? = some (b.group c.1.input) := by
        intro c hc
        -- the row is one of the rows, because the directory has an entry for it
        obtain ⟨k, hk, -⟩ := hs'.working.indexes.sound _ _ _ (hs'.comparedAt c hc).2
        exact hs'.working.match_iff (List.getElem?_eq_some_iff.1 hk).1 c.1.input
      obtain ⟨st', deferred, heq, hlanes⟩ := resolveCompared_spec _ s'.compared hs' hmatched
      refine Or.inr ⟨st', added', deferred, ?_, hlanes⟩
      rw [← heq]
      change Except.ok _ = Except.ok _
      rw [matchGroupBatch_eq, List.map_map]
      rfl

/-! ## Rounds -/

/-- **A round**, over the inputs that are still probing. -/
theorem probeRound_spec (aarch64 : Bool) (n : Nat) :
    ∀ {active done : List Probe} {st : BatchState} {added : List (List Datum)},
      active.length ≤ n → b.Lanes st added r done [] active →
      (∃ e, probeRound aarch64 layout b.chunk st active = .error e ∧ ¬ b.Room) ∨
      ∃ st' added' deferred, probeRound aarch64 layout b.chunk st active = .ok (st', deferred) ∧
        b.Lanes st' added' r (done ++ deferred) [] [] := by
  induction n with
  | zero =>
    intro active done st added hn h
    obtain rfl := List.eq_nil_of_length_eq_zero (Nat.le_zero.1 hn)
    rw [probeRound]
    exact Or.inr ⟨st, added, [], rfl, by rw [List.append_nil]; exact h⟩
  | succ n ih =>
    intro active done st added hn h
    cases active with
    | nil =>
      rw [probeRound]
      exact Or.inr ⟨st, added, [], rfl, by rw [List.append_nil]; exact h⟩
    | cons p active =>
      rw [probeRound]
      rw [← List.take_append_drop vectorWidth (p :: active)] at h
      have hdrop : ((p :: active).drop vectorWidth).length ≤ n := by
        rw [List.length_drop, vectorWidth]
        rw [List.length_cons] at hn ⊢
        omega
      rcases probeVector_spec aarch64 _ h with ⟨e, herror, hno⟩ | ⟨st', added', deferred, hok, hst'⟩
      · rw [herror]
        exact Or.inl ⟨e, rfl, hno⟩
      · rw [hok]
        rcases ih hdrop hst' with ⟨e, herror, hno⟩ | ⟨st'', added'', more, hok', hst''⟩
        · refine Or.inl ⟨e, ?_, hno⟩
          change (do let x ← probeRound _ _ _ _ _; _) = _
          rw [herror]
          rfl
        · refine Or.inr ⟨st'', added'', deferred ++ more, ?_, ?_⟩
          · change (do let x ← probeRound _ _ _ _ _; _) = _
            rw [hok']
            rfl
          · rw [← List.append_assoc]
            exact hst''

/-- The inputs deferred in a round are those of the next. -/
theorem Lanes.next (h : b.Lanes st added r done [] []) : b.Lanes st added (r + 1) [] [] done := by
  have hsame : probing ([] : List Probe) [] done = probing done [] [] := (List.append_nil _).symm
  refine ⟨h.working, fun p hp => absurd hp List.not_mem_nil, fun c hc => absurd hc List.not_mem_nil,
    h.deferredAt, ?_, ?_⟩
  · rw [hsame]
    exact h.ordered
  · rw [hsame]
    exact h.complete

/-- **The rounds** end, and every input has its result. -/
theorem probeRounds_spec (aarch64 : Bool) (rounds : Nat) :
    ∀ {r : Nat} {active : List Probe} {st : BatchState} {added : List (List Datum)},
      st.aht.capacity < rounds + r → b.Lanes st added r [] [] active →
      (∃ e, probeRounds aarch64 layout b.chunk rounds st active = .error e ∧ ¬ b.Room) ∨
      ∃ st' added', probeRounds aarch64 layout b.chunk rounds st active = .ok st' ∧
        b.Working st' added' ∧ ∀ j < b.inputs.length, ∃ res, st'.results j = some res := by
  induction rounds with
  | zero =>
    intro r active st added hr h
    cases active with
    | nil =>
      refine Or.inr ⟨st, added, rfl, h.working, fun j hj => (h.complete j hj).resolve_right ?_⟩
      exact fun hq => absurd hq.choose_spec.1 List.not_mem_nil
    | cons p active =>
      have hp := h.restAt p List.mem_cons_self
      exact Or.inl ⟨_, rfl, hp.no_room h.working (by omega)⟩
  | succ rounds ih =>
    intro r active st added hr h
    cases active with
    | nil =>
      refine Or.inr ⟨st, added, rfl, h.working, fun j hj => (h.complete j hj).resolve_right ?_⟩
      exact fun hq => absurd hq.choose_spec.1 List.not_mem_nil
    | cons p active =>
      rw [probeRounds]
      rcases probeRound_spec aarch64 _ (Nat.le_refl _) h with
        ⟨e, herror, hno⟩ | ⟨st', added', deferred, hok, hst'⟩
      · rw [herror]
        exact Or.inl ⟨e, rfl, hno⟩
      · rw [hok]
        have hcapacity := hst'.working.capacity.trans h.working.capacity.symm
        exact ih (by omega) hst'.next

/-! ## The whole batch -/

variable (b) in
/-- Before the first step. -/
theorem working_start : b.Working ⟨b.aht, b.tdc, fun _ => none⟩ [] := by
  have hrows : b.rowsWith [] = b.rows := List.append_nil _
  have hgroups : b.groups [] = b.rows.map Prod.fst := List.append_nil _
  refine ⟨?_, ?_, rfl, rfl, rfl, rfl, fun k hk => absurd hk List.not_mem_nil,
    fun j res hres => absurd hres.symm (Option.some_ne_none _)⟩
  · rw [hrows]
    exact b.represents.holds
  · rw [hgroups]
    exact b.represents.indexes

variable (b) in
/-- Before the first round every input is at the first slot of its group. -/
theorem lanes_start : b.Lanes ⟨b.aht, b.tdc, fun _ => none⟩ [] 0 [] [] (startProbes b.aht b.inputs) := by
  have hat : ∀ p ∈ startProbes b.aht b.inputs,
      b.AtSlot ⟨b.aht, b.tdc, fun _ => none⟩ [] 0 p := by
    intro p hp
    obtain ⟨⟨input, i⟩, hmem, rfl⟩ := List.mem_map.1 hp
    have hinput := List.mem_zipIdx_iff_getElem?.1 hmem
    refine ⟨hinput, rfl, rfl, ?_, passedBy_zero⟩
    have hhash := b.hashed input (List.mem_of_getElem? hinput)
    rw [hashGroup_eq] at hhash
    dsimp only
    rw [hhash]
    exact firstSlot_eq b.aht _
  refine ⟨b.working_start, fun p hp => absurd hp List.not_mem_nil,
    fun c hc => absurd hc List.not_mem_nil, hat, ?_, fun j hj => Or.inr ?_⟩
  · change (startProbes b.aht b.inputs).Pairwise b.Before
    rw [startProbes, List.pairwise_map, List.pairwise_iff_getElem]
    intro i j hi hj hlt _
    rw [List.getElem_zipIdx, List.getElem_zipIdx]
    show 0 + i < 0 + j
    omega
  · refine ⟨⟨j, b.inputs[j], b.aht.firstSlot b.inputs[j].hash, 0⟩, ?_, rfl⟩
    refine List.mem_map.2 ⟨(b.inputs[j], j), ?_, rfl⟩
    exact List.mem_zipIdx_iff_getElem?.2 (List.getElem?_eq_getElem hj)

variable (b) in
/-- What a run over the inputs ends with: all of them have their results. -/
structure Ends (out : BatchOutput) (st : BatchState) (added : List (List Datum)) : Prop where
  out_eq : out = (st.aht, st.tdc, (List.range b.inputs.length).map st.results)
  working : b.Working st added
  resolved : ∀ j < b.inputs.length, ∃ res, st.results j = some res

/-- **A batch** ends with all results exactly where there is room for its groups. -/
theorem findOrInsertBatch_spec (aarch64 : Bool) :
    (∃ e, findOrInsertBatch aarch64 layout b.chunk b.aht b.tdc b.inputs = .error e ∧ ¬ b.Room) ∨
    ∃ out st added, findOrInsertBatch aarch64 layout b.chunk b.aht b.tdc b.inputs = .ok out ∧
      b.Ends out st added := by
  unfold findOrInsertBatch
  rcases probeRounds_spec aarch64 (b.aht.capacity + 1) (Nat.lt_succ_self _) b.lanes_start with
    ⟨e, herror, hno⟩ | ⟨st, added, hok, hworking, hresolved⟩
  · rw [herror]
    exact Or.inl ⟨e, rfl, hno⟩
  · rw [hok]
    exact Or.inr ⟨_, st, added, rfl, rfl, hworking, hresolved⟩

/-! ## One row at a time -/

/-- The first `n` inputs have their results. -/
structure InOrder (out : BatchOutput) (added : List (List Datum)) (n : Nat) : Prop where
  working : b.Working ⟨out.1, out.2.1, fun j => out.2.2[j]?.join⟩ added
  length : out.2.2.length = n
  resolved : ∀ j < n, ∃ res, out.2.2[j]?.join = some res

/-- The results with that of the next input. -/
theorem join_append (results : List (Option BatchProbeResult)) (res : BatchProbeResult) :
    (fun j => (results ++ [some res])[j]?.join) =
      Function.update (fun j => results[j]?.join) results.length (some res) := by
  funext j
  rcases Nat.lt_trichotomy j results.length with hlt | rfl | hgt
  · rw [Function.update_of_ne (Nat.ne_of_lt hlt), List.getElem?_append_left hlt]
  · rw [Function.update_self, List.getElem?_concat_length]
    rfl
  · rw [Function.update_of_ne (Nat.ne_of_gt hgt), List.getElem?_eq_none (Nat.le_of_lt hgt),
      List.getElem?_eq_none]
    rw [List.length_append, List.length_singleton]
    omega

/-- An input whose group is missing is the first of it where all inputs before have results. -/
theorem Working.first_of_resolved (h : b.Working st added) {n : Nat} {input : BatchProbeInput}
    (hresolved : ∀ j < n, ∃ res, st.results j = some res)
    (hnew : b.group input ∉ b.groups added) : b.First n input := by
  refine ⟨fun hold => hnew (List.mem_append_left _ hold), fun i hi input' hinput' hgroup => ?_⟩
  obtain ⟨res, hres⟩ := hresolved i hi
  obtain ⟨input'', hinput'', hright⟩ := h.right i res hres
  obtain rfl := Option.some.inj (hinput'.symm.trans hinput'')
  exact hnew (hgroup ▸ List.mem_of_getElem? hright.canonical)

/-- The result of the next input. -/
theorem InOrder.step {out : BatchOutput} {n : Nat} (h : b.InOrder out added n)
    {aht' : AggregateHashTable} {t' : TupleDataCollection} {added' : List (List Datum)}
    {res : BatchProbeResult}
    (hworking : b.Working ⟨aht', t', Function.update (fun j => out.2.2[j]?.join) n (some res)⟩
      added') : b.InOrder (aht', t', out.2.2 ++ [some res]) added' (n + 1) := by
  have hresults := join_append out.2.2 res
  rw [h.length] at hresults
  refine ⟨?_, ?_, fun j hj => ?_⟩
  · dsimp only
    rw [hresults]
    exact hworking
  · rw [List.length_append, List.length_singleton, h.length]
  · have hresult := congrFun hresults j
    dsimp only at hresult ⊢
    rw [hresult]
    by_cases heq : j = n
    · rw [heq, Function.update_self]
      exact ⟨res, rfl⟩
    · rw [Function.update_of_ne heq]
      exact h.resolved j (by omega)

/-- **The turn of an input.** -/
theorem findOrInsertRow_spec {out : BatchOutput} {n : Nat} (h : b.InOrder out added n)
    {input : BatchProbeInput} (hinput : b.inputs[n]? = some input) :
    (∃ e, findOrInsertRow layout b.chunk out input = .error e ∧ ¬ b.Room) ∨
    ∃ out' added', findOrInsertRow layout b.chunk out input = .ok out' ∧
      b.InOrder out' added' (n + 1) := by
  have hw := h.working
  have hhash : input.hash = hashColumns (b.group input) := by
    rw [b.hashed _ (List.mem_of_getElem? hinput), hashGroup_eq]
    rfl
  have hunresolved : out.2.2[n]?.join = none := by
    rw [List.getElem?_eq_none (Nat.le_of_eq h.length)]
    rfl
  have hat : ∀ m, PassedBy (path out.1.capacity) out.1.entries (b.groups added) (b.group input) m →
      b.AtSlot ⟨out.1, out.2.1, fun j => out.2.2[j]?.join⟩ added m
        ⟨n, input, path out.1.capacity (b.group input) m, m⟩ := by
    exact fun m hpassed => ⟨hinput, hunresolved, rfl, rfl, hpassed⟩
  have hends := probe_ends hw.indexes fun i hi => hw.match_iff hi input
  dsimp only at hends
  unfold findOrInsertRow
  dsimp only
  rw [← hhash] at hends
  generalize out.1.probe _ _ = outcome at hends
  cases hends with
  | found hi =>
    have hfound := hw.found (hat 0 passedBy_zero) hi
    exact Or.inr ⟨_, added, rfl, h.step hfound⟩
  | @empty m hempty hpassed =>
    have hslot := hat m hpassed
    have hnew := hw.indexes.not_mem hpassed hempty
    have hfirst := hw.first_of_resolved h.resolved hnew
    dsimp only
    rcases hw.append_or_no_room (List.mem_of_getElem? hinput) hnew with
      ⟨happ, hno⟩ | ⟨dst, candidate, happ, ⟨e, hscatter, hno⟩ | ⟨t', hscatter⟩⟩
    · rw [happ]
      exact Or.inl ⟨_, rfl, hno⟩
    · rw [happ]
      dsimp only
      rw [hscatter]
      exact Or.inl ⟨e, rfl, hno⟩
    · rw [happ]
      dsimp only
      rw [hscatter]
      have hinsert := (hw.insert hslot hempty hfirst happ hscatter).2
      exact Or.inr ⟨_, _, rfl, h.step hinsert⟩
  | full hpassed => exact Or.inl ⟨_, rfl, (hat _ hpassed).no_room hw (Nat.le_refl _)⟩

/-- The turns of the remaining inputs. -/
theorem findOrInsertRows_spec (rest : List BatchProbeInput) :
    ∀ {before : List BatchProbeInput} {out : BatchOutput} {added : List (List Datum)},
      b.inputs = before ++ rest → b.InOrder out added before.length →
      (∃ e, rest.foldlM (findOrInsertRow layout b.chunk) out = .error e ∧ ¬ b.Room) ∨
      ∃ out' added', rest.foldlM (findOrInsertRow layout b.chunk) out = .ok out' ∧
        b.InOrder out' added' b.inputs.length := by
  induction rest with
  | nil =>
    intro before out added hinputs h
    rw [List.append_nil] at hinputs
    rw [hinputs]
    exact Or.inr ⟨out, added, rfl, h⟩
  | cons input rest ih =>
    intro before out added hinputs h
    rw [List.foldlM_cons]
    have hinput : b.inputs[before.length]? = some input := by
      rw [hinputs, List.getElem?_append_right (Nat.le_refl _), Nat.sub_self]
      rfl
    rcases findOrInsertRow_spec h hinput with ⟨e, herror, hno⟩ | ⟨out', added', hok, h'⟩
    · rw [herror]
      exact Or.inl ⟨e, rfl, hno⟩
    · rw [hok]
      have hlength : before.length + 1 = (before ++ [input]).length := by
        rw [List.length_append, List.length_singleton]
      rw [hlength] at h'
      exact ih (by rw [hinputs, List.append_assoc]; rfl) h'

/-- **The rows one at a time** end with all results exactly where there is room too. -/
theorem findOrInsertInOrder_spec :
    (∃ e, findOrInsertInOrder layout b.chunk b.aht b.tdc b.inputs = .error e ∧ ¬ b.Room) ∨
    ∃ out st added, findOrInsertInOrder layout b.chunk b.aht b.tdc b.inputs = .ok out ∧
      b.Ends out st added := by
  have hstart : b.InOrder (b.aht, b.tdc, []) [] ([] : List BatchProbeInput).length :=
    ⟨b.working_start, rfl, fun j hj => absurd hj (Nat.not_lt_zero j)⟩
  rcases findOrInsertRows_spec b.inputs (List.nil_append _).symm hstart with
    herror | ⟨out, added, hok, h⟩
  · exact Or.inl herror
  · refine Or.inr ⟨out, ⟨out.1, out.2.1, fun j => out.2.2[j]?.join⟩, added, hok, ?_, h.working,
      h.resolved⟩
    have hresults : out.2.2 = (List.range b.inputs.length).map fun j => out.2.2[j]?.join := by
      refine List.ext_getElem? fun j => ?_
      rw [List.getElem?_map]
      by_cases hj : j < b.inputs.length
      · obtain ⟨res, hres⟩ := h.resolved j hj
        rw [List.getElem?_range hj, Option.map_some, hres]
        exact Option.join_eq_some_iff.1 hres
      · have hlength := h.length
        rw [List.getElem?_eq_none (by omega), List.getElem?_eq_none (by rw [List.length_range]; omega)]
        rfl
    rw [← hresults]

/-- A run that ends had room. -/
theorem Ends.room {out : BatchOutput} (h : b.Ends out st added) : b.Room :=
  h.working.room_of_done h.resolved

/-- **The batch and the rows one at a time** fail together, and end together. -/
theorem batch_and_inOrder (b : Batch layout) (aarch64 : Bool) :
    ((∃ e, findOrInsertBatch aarch64 layout b.chunk b.aht b.tdc b.inputs = .error e) ∧
      ∃ e, findOrInsertInOrder layout b.chunk b.aht b.tdc b.inputs = .error e) ∨
    ∃ out st added out' st' added',
      findOrInsertBatch aarch64 layout b.chunk b.aht b.tdc b.inputs = .ok out ∧
      b.Ends out st added ∧
      findOrInsertInOrder layout b.chunk b.aht b.tdc b.inputs = .ok out' ∧
      b.Ends out' st' added' := by
  rcases findOrInsertBatch_spec (b := b) aarch64 with ⟨e, he, hno⟩ | ⟨out, st, added, hok, h⟩
  · rcases findOrInsertInOrder_spec (b := b) with ⟨e', he', -⟩ | ⟨out', st', added', -, h'⟩
    · exact Or.inl ⟨⟨e, he⟩, e', he'⟩
    · exact absurd h'.room hno
  · rcases findOrInsertInOrder_spec (b := b) with ⟨e', -, hno⟩ | ⟨out', st', added', hok', h'⟩
    · exact absurd h.room hno
    · exact Or.inr ⟨out, st, added, out', st', added', hok, h, hok', h'⟩

end Batch
end AggregateHashTable
end PgYaap
