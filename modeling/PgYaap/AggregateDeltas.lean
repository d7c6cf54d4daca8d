import PgYaap.AggregateStates

/-! # Gathered updates

Before they are written to the row store, the rows of a chunk are gathered into a delta for
every row of the store that they go to. A table of slots finds the delta of a row by linear
probing; as it has more slots than a chunk has rows, probing ends. The deltas are applied at
the end, and leave the states that adding the rows one by one leaves. -/
namespace PgYaap
namespace AggregateStates

open ColumnSlots GroupedFold ProbedTables

/-- `PIPELINE_DEFAULT_CHUNK_SIZE`. -/
def pipelineDefaultChunkSize : Nat := 2048

/-- `AGG_DELTA_HASH_SLOTS`. -/
def aggDeltaHashSlots : Nat := pipelineDefaultChunkSize * 2

/-- `AggDelta`, with the row of the store it is for: its index, or its address. -/
structure AggDelta (aggs : List TdcAggregateDesc) where
  row : Nat
  values : Fin aggs.length → DeltaValue

/-- The deltas of a chunk and `delta_slots`; `none` stands for `AGG_DELTA_EMPTY_SLOT`. -/
structure DeltaTable (aggs : List TdcAggregateDesc) where
  deltas : List (AggDelta aggs)
  deltaSlots : Nat → Option Nat

variable {aggs : List TdcAggregateDesc}

/-- `InitAggDelta`. -/
def initAggDelta (row : Nat) : AggDelta aggs := ⟨row, fun _ => ⟨0, 0⟩⟩

/-- The inner loop: the index of the delta of a row, from a slot on. The loop of the source has
no bound; `none` stands for one that goes round all slots. -/
def findDelta (table : DeltaTable aggs) (row : Nat) : Nat → Nat → Option (DeltaTable aggs × Nat)
  | 0, _ => none
  | tries + 1, slot =>
    match table.deltaSlots slot with
    | none =>
      some (⟨table.deltas ++ [initAggDelta row],
        Function.update table.deltaSlots slot (some table.deltas.length)⟩, table.deltas.length)
    | some existing =>
      if table.deltas[existing]?.map (·.row) = some row then some (table, existing)
      else findDelta table row tries ((slot + 1) % aggDeltaHashSlots)

/-- `AccumulateAggDelta`. -/
def AggDelta.accumulate (delta : AggDelta aggs) (chunk : DataChunk) (rowIdx : Nat) :
    AggDelta aggs where
  row := delta.row
  values a := accumulateAggDelta (aggs.get a).kind (delta.values a)
    (chunk.getInt64 (aggs.get a).srcColIdx rowIdx) (chunk.nulls (aggs.get a).srcColIdx rowIdx)

/-- The body of the outer loop, for a row of the store and a row of the chunk. -/
def gatherRow (home : Nat → Nat) (chunk : DataChunk) (table : DeltaTable aggs)
    (input : Nat × Nat) : Option (DeltaTable aggs) := do
  let (table, idx) ← findDelta table input.1 aggDeltaHashSlots (home input.1)
  return { table with deltas := table.deltas.modify idx (·.accumulate chunk input.2) }

/-- `ApplyAggDelta`. -/
def applyDelta (store : Nat → States aggs) (delta : AggDelta aggs) : Nat → States aggs :=
  Function.update store delta.row fun a =>
    applyAggDelta (aggs.get a).kind (store delta.row a) (delta.values a)

/-- The body that `UpdateAggregatesBatchGroupedGeneric` and `UpdateAggregatesGatherGroupedGeneric`
share; they differ in the first slot they try for a row. -/
def updateAggregatesGrouped (home : Nat → Nat) (chunk : DataChunk) (inputs : List (Nat × Nat))
    (store : Nat → States aggs) : Option (Nat → States aggs) := do
  let table ← inputs.foldlM (gatherRow home chunk) ⟨[], fun _ => none⟩
  return table.deltas.foldl applyDelta store

/-- `UpdateAggregatesBatch`: rows of the store are given by their addresses. -/
def updateAggregatesBatch (chunk : DataChunk) (inputs : List (Nat × Nat))
    (store : Nat → States aggs) : Option (Nat → States aggs) :=
  updateAggregatesGrouped (fun rowPtr => rowPtr / 8 % aggDeltaHashSlots) chunk inputs store

/-- `UpdateAggregatesGather`: rows of the store are given by their indices. -/
def updateAggregatesGather (chunk : DataChunk) (inputs : List (Nat × Nat))
    (store : Nat → States aggs) : Option (Nat → States aggs) :=
  updateAggregatesGrouped (fun canonicalIdx => canonicalIdx % aggDeltaHashSlots) chunk inputs store

/-- `UpdateAggregates` for the rows of a chunk, one by one. -/
def updateAggregatesInOrder (chunk : DataChunk) (inputs : List (Nat × Nat))
    (store : Nat → States aggs) : Nat → States aggs :=
  inputs.foldl (fun store input =>
    Function.update store input.1 (updateAggregates (store input.1) (chunk, input.2))) store

/-! ## Deltas -/

/-- The rows of the chunk that go to a row of the store. -/
def rowsFor (chunk : DataChunk) (inputs : List (Nat × Nat)) (row : Nat) : List ChunkRow :=
  (inputs.filter fun input => input.1 = row).map fun input => (chunk, input.2)

/-- A delta brings the rows of the chunk to a state. -/
def Brings (delta : AggDelta aggs) (rows : List ChunkRow) : Prop :=
  ∀ states : States aggs,
    (fun a => applyAggDelta (aggs.get a).kind (states a) (delta.values a)) =
      (aggregation aggs).combine states (total (aggregation aggs) rows)

/-- The deltas after some rows: one for every row of the store that they go to. -/
structure DeltasOf (chunk : DataChunk) (inputs : List (Nat × Nat)) (deltas : List (AggDelta aggs)) :
    Prop where
  nodup : (deltas.map (·.row)).Nodup
  brings : ∀ delta ∈ deltas, Brings delta (rowsFor chunk inputs delta.row)
  none_left : ∀ r, r ∉ deltas.map (·.row) → rowsFor chunk inputs r = []

theorem rowsFor_cons (chunk : DataChunk) (inputs : List (Nat × Nat)) (input : Nat × Nat) (r : Nat) :
    rowsFor chunk (input :: inputs) r =
      if input.1 = r then (chunk, input.2) :: rowsFor chunk inputs r else rowsFor chunk inputs r := by
  rw [rowsFor]
  by_cases heq : input.1 = r
  · rw [if_pos heq, List.filter_cons_of_pos (by simpa using heq)]
    rfl
  · rw [if_neg heq, List.filter_cons_of_neg (by simpa using heq)]
    rfl

theorem rowsFor_concat (chunk : DataChunk) (inputs : List (Nat × Nat)) (input : Nat × Nat)
    (r : Nat) : rowsFor chunk (inputs ++ [input]) r =
      if input.1 = r then rowsFor chunk inputs r ++ [(chunk, input.2)]
      else rowsFor chunk inputs r := by
  rw [rowsFor, List.filter_append, List.map_append]
  by_cases heq : input.1 = r
  · rw [if_pos heq, List.filter_cons_of_pos (by simpa using heq)]
    rfl
  · rw [if_neg heq, List.filter_cons_of_neg (by simpa using heq), List.filter_nil, List.map_nil,
      List.append_nil]
    rfl

/-- A delta with one more row. -/
theorem Brings.accumulate {delta : AggDelta aggs} {rows : List ChunkRow} (h : Brings delta rows)
    (chunk : DataChunk) (rowIdx : Nat) :
    Brings (delta.accumulate chunk rowIdx) (rows ++ [(chunk, rowIdx)]) := by
  intro states
  rw [total_concat, ← (aggregation aggs).combine_assoc, ← h states]
  exact funext fun a => applyAggDelta_accumulateAggDelta _ _ _ _

theorem brings_initAggDelta (row : Nat) : Brings (initAggDelta row : AggDelta aggs) [] := by
  intro states
  rw [total, (aggregation aggs).combine_empty]
  exact funext fun a => applyAggDelta_zero _

/-- An empty delta for a row that has none. -/
theorem DeltasOf.init {chunk : DataChunk} {inputs : List (Nat × Nat)}
    {deltas : List (AggDelta aggs)} (h : DeltasOf chunk inputs deltas) {row : Nat}
    (hnew : row ∉ deltas.map (·.row)) : DeltasOf chunk inputs (deltas ++ [initAggDelta row]) := by
  refine ⟨?_, ?_, ?_⟩
  · rw [List.map_append]
    exact List.nodup_append'.2 ⟨h.nodup, List.nodup_singleton _, by simpa [initAggDelta] using hnew⟩
  · intro delta hdelta
    rcases List.mem_append.1 hdelta with hold | hin
    · exact h.brings delta hold
    · obtain rfl := List.mem_singleton.1 hin
      change Brings _ (rowsFor chunk inputs row)
      rw [h.none_left row hnew]
      exact brings_initAggDelta row
  · intro r hr
    rw [List.map_append, List.mem_append, not_or] at hr
    exact h.none_left r hr.1

theorem map_row_modify (deltas : List (AggDelta aggs)) (idx : Nat) (chunk : DataChunk)
    (rowIdx : Nat) :
    (deltas.modify idx (·.accumulate chunk rowIdx)).map (·.row) = deltas.map (·.row) := by
  refine List.ext_getElem? fun k => ?_
  rw [List.getElem?_map, List.getElem?_map, List.getElem?_modify]
  cases deltas[k]? with
  | none => rfl
  | some delta =>
    rw [Option.map_eq_map, Option.map_some, Option.map_some, Option.map_some]
    by_cases heq : idx = k
    · rw [if_pos heq]
      rfl
    · rw [if_neg heq]

/-- **A row of the chunk goes into the delta of its row.** -/
theorem DeltasOf.accumulate {chunk : DataChunk} {inputs : List (Nat × Nat)}
    {deltas : List (AggDelta aggs)} (h : DeltasOf chunk inputs deltas) {input : Nat × Nat}
    {idx : Nat} (hidx : deltas[idx]?.map (·.row) = some input.1) :
    DeltasOf chunk (inputs ++ [input]) (deltas.modify idx (·.accumulate chunk input.2)) := by
  have hrows := map_row_modify deltas idx chunk input.2
  obtain ⟨found, hfound, hrow⟩ := Option.map_eq_some_iff.1 hidx
  refine ⟨hrows ▸ h.nodup, ?_, ?_⟩
  · intro delta hdelta
    obtain ⟨k, hk⟩ := List.mem_iff_getElem?.1 hdelta
    rw [List.getElem?_modify] at hk
    obtain ⟨old, hold, rfl⟩ := Option.map_eq_some_iff.1 hk
    by_cases heq : idx = k
    · subst heq
      obtain rfl := Option.some.inj (hold.symm.trans hfound)
      rw [if_pos rfl, rowsFor_concat]
      change Brings _ (if input.1 = old.row then _ else _)
      rw [if_pos hrow.symm]
      exact (h.brings old (List.mem_of_getElem? hold)).accumulate chunk input.2
    · -- another delta: its row is another one
      have hne : input.1 ≠ old.row := by
        rintro hsame
        have hlt := (List.getElem?_eq_some_iff.1 hfound).1
        have hget : (deltas.map (·.row))[idx]? = (deltas.map (·.row))[k]? := by
          rw [List.getElem?_map, List.getElem?_map, hfound, hold]
          exact congrArg some (hrow.trans hsame)
        exact heq ((List.getElem?_inj (by rwa [List.length_map]) h.nodup).1 hget)
      rw [if_neg heq, rowsFor_concat, if_neg hne]
      exact h.brings old (List.mem_of_getElem? hold)
  · intro r hr
    rw [hrows] at hr
    have hne : input.1 ≠ r := by
      rintro rfl
      exact hr (List.mem_map.2 ⟨found, List.mem_of_getElem? hfound, hrow⟩)
    rw [rowsFor_concat, if_neg hne]
    exact h.none_left r hr

/-- Deltas for other rows leave the states of a row as they are. -/
theorem foldl_applyDelta_of_not_mem (deltas : List (AggDelta aggs)) (store : Nat → States aggs)
    {r : Nat} (hr : r ∉ deltas.map (·.row)) : deltas.foldl applyDelta store r = store r := by
  induction deltas generalizing store with
  | nil => rfl
  | cons delta deltas ih =>
    rw [List.map_cons, List.mem_cons, not_or] at hr
    rw [List.foldl_cons, ih _ hr.2, applyDelta, Function.update_of_ne hr.1]

theorem foldl_applyDelta_of_mem {deltas : List (AggDelta aggs)} (store : Nat → States aggs)
    (hnodup : (deltas.map (·.row)).Nodup) {delta : AggDelta aggs} (hdelta : delta ∈ deltas)
    {rows : List ChunkRow} (hbrings : Brings delta rows) :
    deltas.foldl applyDelta store delta.row =
      (aggregation aggs).combine (store delta.row) (total (aggregation aggs) rows) := by
  induction deltas generalizing store with
  | nil => exact absurd hdelta List.not_mem_nil
  | cons first deltas ih =>
    rw [List.map_cons, List.nodup_cons] at hnodup
    rw [List.foldl_cons]
    rcases List.mem_cons.1 hdelta with rfl | hmem
    · rw [foldl_applyDelta_of_not_mem _ _ hnodup.1, applyDelta, Function.update_self]
      exact hbrings _
    · have hne : delta.row ≠ first.row := by
        intro heq
        exact hnodup.1 (heq ▸ List.mem_map_of_mem hmem)
      rw [ih _ hnodup.2 hmem, applyDelta, Function.update_of_ne hne]

/-- **The deltas of a chunk bring its rows to the store.** -/
theorem DeltasOf.foldl_applyDelta {chunk : DataChunk} {inputs : List (Nat × Nat)}
    {deltas : List (AggDelta aggs)} (h : DeltasOf chunk inputs deltas) (store : Nat → States aggs)
    (r : Nat) : deltas.foldl applyDelta store r =
      (aggregation aggs).combine (store r) (total (aggregation aggs) (rowsFor chunk inputs r)) := by
  by_cases hr : r ∈ deltas.map (·.row)
  · obtain ⟨delta, hdelta, rfl⟩ := List.mem_map.1 hr
    exact foldl_applyDelta_of_mem store h.nodup hdelta (h.brings delta hdelta)
  · rw [foldl_applyDelta_of_not_mem _ _ hr, h.none_left r hr]
    exact ((aggregation aggs).combine_empty _).symm

theorem updateAggregatesInOrder_apply (chunk : DataChunk) (inputs : List (Nat × Nat))
    (store : Nat → States aggs) (r : Nat) :
    updateAggregatesInOrder chunk inputs store r =
      (aggregation aggs).combine (store r) (total (aggregation aggs) (rowsFor chunk inputs r)) := by
  induction inputs generalizing store with
  | nil => exact ((aggregation aggs).combine_empty _).symm
  | cons input inputs ih =>
    rw [updateAggregatesInOrder, List.foldl_cons]
    refine (ih _).trans ?_
    rw [rowsFor_cons]
    by_cases heq : input.1 = r
    · subst heq
      rw [if_pos rfl, Function.update_self, total, updateAggregates_eq,
        (aggregation aggs).combine_assoc]
    · rw [if_neg heq, Function.update_of_ne (Ne.symm heq)]

/-! ## The table of slots -/

/-- The slots that are tried for a row. -/
def deltaPath (home : Nat → Nat) (row tries : Nat) : Nat := (home row + tries) % aggDeltaHashSlots

/-- The slots as a table of rows without tags. -/
def slotTable (table : DeltaTable aggs) : Table Unit Nat := fun slot =>
  (table.deltaSlots slot).map fun idx => ((), idx)

/-- The slots find the delta of every row. -/
def Indexed (home : Nat → Nat) (table : DeltaTable aggs) : Prop :=
  WellFormed (deltaPath home) (fun _ => ()) (slotTable table) (table.deltas.map (·.row))

theorem deltaPath_injective (home : Nat → Nat) (row : Nat) :
    ∀ m < aggDeltaHashSlots, ∀ n < aggDeltaHashSlots,
      deltaPath home row m = deltaPath home row n → m = n := by
  intro m hm n hn heq
  have hmod : m % aggDeltaHashSlots = n % aggDeltaHashSlots := by
    exact Nat.ModEq.add_left_cancel' (home row) heq
  rwa [Nat.mod_eq_of_lt hm, Nat.mod_eq_of_lt hn] at hmod

theorem deltaPath_succ (home : Nat → Nat) (row n : Nat) :
    (deltaPath home row n + 1) % aggDeltaHashSlots = deltaPath home row (n + 1) := by
  rw [deltaPath, deltaPath, Nat.mod_add_mod, Nat.add_assoc]

theorem slotTable_insert (table : DeltaTable aggs) (slot row : Nat) :
    slotTable ⟨table.deltas ++ [initAggDelta row],
      Function.update table.deltaSlots slot (some table.deltas.length)⟩ =
        Function.update (slotTable table) slot (some ((), table.deltas.length)) := by
  funext s
  dsimp only [slotTable]
  by_cases heq : s = slot
  · rw [heq, Function.update_self, Function.update_self]
    rfl
  · rw [Function.update_of_ne heq, Function.update_of_ne heq]
    rfl

theorem indexed_empty (home : Nat → Nat) : Indexed home (⟨[], fun _ => none⟩ : DeltaTable aggs) :=
  wellFormed_empty

/-- What the inner loop comes to: the delta of the row is found, or made. -/
structure Found (home : Nat → Nat) (table table' : DeltaTable aggs) (row idx : Nat) : Prop where
  indexed : Indexed home table'
  row_eq : table'.deltas[idx]?.map (·.row) = some row
  deltas_eq : table'.deltas = table.deltas ∨
    row ∉ table.deltas.map (·.row) ∧ table'.deltas = table.deltas ++ [initAggDelta row]

theorem Found.length_le {home : Nat → Nat} {table table' : DeltaTable aggs} {row idx : Nat}
    (h : Found home table table' row idx) : table'.deltas.length ≤ table.deltas.length + 1 := by
  rcases h.deltas_eq with heq | ⟨-, heq⟩
  · rw [heq]
    exact Nat.le_succ _
  · rw [heq, List.length_append, List.length_singleton]

/-- **Probing ends** at the delta of the row or at an empty slot: the table has more slots than
deltas, and the slots that were passed belong to other rows. -/
theorem findDelta_found {home : Nat → Nat} {table : DeltaTable aggs} (h : Indexed home table)
    (hroom : table.deltas.length < aggDeltaHashSlots) (row : Nat) (tries n : Nat)
    (htries : n + tries = aggDeltaHashSlots)
    (hpassed : PassedBy (deltaPath home) (slotTable table) (table.deltas.map (·.row)) row n) :
    ∃ table' idx, findDelta table row tries (deltaPath home row n) = some (table', idx) ∧
      Found home table table' row idx := by
  induction tries generalizing n with
  | zero =>
    obtain ⟨m, hm, hempty⟩ := WellFormed.exists_empty h (deltaPath_injective home row)
      (by rwa [List.length_map])
    exact absurd hempty (hpassed.ne_none m (by omega))
  | succ tries ih =>
    rw [findDelta]
    cases hslot : table.deltaSlots (deltaPath home row n) with
    | none =>
      have hempty : slotTable table (deltaPath home row n) = none := by rw [slotTable, hslot]; rfl
      have hnew := WellFormed.not_mem h hpassed hempty
      refine ⟨_, _, rfl, ?_, ?_, Or.inr ⟨hnew, rfl⟩⟩
      · have hinsert := WellFormed.insert h hnew hpassed.ne_none hempty
        rw [List.length_map, ← slotTable_insert] at hinsert
        rw [Indexed, List.map_append]
        exact hinsert
      · rw [List.getElem?_concat_length]
        rfl
    | some existing =>
      dsimp only
      by_cases hmatch : table.deltas[existing]?.map (·.row) = some row
      · rw [if_pos hmatch]
        exact ⟨table, existing, rfl, h, hmatch, Or.inl rfl⟩
      · rw [if_neg hmatch, deltaPath_succ]
        have htaken : slotTable table (deltaPath home row n) = some ((), existing) := by
          rw [slotTable, hslot]
          rfl
        refine ih (n + 1) (by omega) (hpassed.succ htaken ?_)
        rwa [List.getElem?_map]

/-- **Gathering one row.** -/
theorem gatherRow_spec {home : Nat → Nat} (hhome : ∀ row, home row < aggDeltaHashSlots)
    {chunk : DataChunk} {inputs : List (Nat × Nat)} {table : DeltaTable aggs}
    (h : Indexed home table) (hdeltas : DeltasOf chunk inputs table.deltas)
    (hroom : table.deltas.length < aggDeltaHashSlots) (input : Nat × Nat) :
    ∃ table', gatherRow home chunk table input = some table' ∧ Indexed home table' ∧
      DeltasOf chunk (inputs ++ [input]) table'.deltas ∧
      table'.deltas.length ≤ table.deltas.length + 1 := by
  have hstart : home input.1 = deltaPath home input.1 0 :=
    (Nat.mod_eq_of_lt (hhome input.1)).symm
  obtain ⟨table', idx, hfind, hfound⟩ := findDelta_found h hroom input.1 aggDeltaHashSlots 0
    (Nat.zero_add _) passedBy_zero
  have hinit : DeltasOf chunk inputs table'.deltas := by
    rcases hfound.deltas_eq with heq | ⟨hnew, heq⟩
    · rwa [heq]
    · rw [heq]
      exact hdeltas.init hnew
  refine ⟨{ table' with deltas := table'.deltas.modify idx (·.accumulate chunk input.2) }, ?_, ?_,
    hinit.accumulate hfound.row_eq, ?_⟩
  · rw [gatherRow, hstart, hfind]
    rfl
  · have hrows := map_row_modify table'.deltas idx chunk input.2
    rw [Indexed, hrows]
    exact hfound.indexed
  · rw [List.length_modify]
    exact hfound.length_le

theorem foldlM_gatherRow {home : Nat → Nat} (hhome : ∀ row, home row < aggDeltaHashSlots)
    (chunk : DataChunk) (inputs : List (Nat × Nat)) (hcount : inputs.length < aggDeltaHashSlots) :
    ∃ table : DeltaTable aggs, inputs.foldlM (gatherRow home chunk) ⟨[], fun _ => none⟩ = some table ∧
      Indexed home table ∧ DeltasOf chunk inputs table.deltas ∧
      table.deltas.length ≤ inputs.length := by
  induction inputs using List.reverseRecOn with
  | nil =>
    exact ⟨_, rfl, indexed_empty home,
      ⟨List.nodup_nil, fun _ h => absurd h List.not_mem_nil, fun _ _ => rfl⟩, Nat.le_refl _⟩
  | append_singleton inputs input ih =>
    rw [List.length_append, List.length_singleton] at hcount
    obtain ⟨table, hfold, hindexed, hdeltas, hlength⟩ := ih (by omega)
    obtain ⟨table', hrow, hindexed', hdeltas', hlength'⟩ :=
      gatherRow_spec hhome hindexed hdeltas (by omega) input
    refine ⟨table', ?_, hindexed', hdeltas', ?_⟩
    · rw [List.foldlM_append, hfold, Option.bind_eq_bind, Option.bind_some, List.foldlM_cons, hrow]
      rfl
    · rw [List.length_append, List.length_singleton]
      omega

/-- Whatever slot is tried first, the grouped update adds every row of the chunk to its row of
the store. -/
theorem updateAggregatesGrouped_eq {home : Nat → Nat} (hhome : ∀ row, home row < aggDeltaHashSlots)
    (chunk : DataChunk) (inputs : List (Nat × Nat)) (hcount : inputs.length < aggDeltaHashSlots)
    (store : Nat → States aggs) :
    updateAggregatesGrouped home chunk inputs store =
      some (updateAggregatesInOrder chunk inputs store) := by
  obtain ⟨table, hfold, -, hdeltas, -⟩ := @foldlM_gatherRow aggs _ hhome chunk inputs hcount
  rw [updateAggregatesGrouped, hfold]
  refine congrArg some (funext fun r => ?_)
  rw [updateAggregatesInOrder_apply]
  exact hdeltas.foldl_applyDelta store r

theorem updateAggregatesGather_eq (chunk : DataChunk) (inputs : List (Nat × Nat))
    (hcount : inputs.length ≤ pipelineDefaultChunkSize) (store : Nat → States aggs) :
    updateAggregatesGather chunk inputs store =
      some (updateAggregatesInOrder chunk inputs store) := by
  refine updateAggregatesGrouped_eq (fun _ => Nat.mod_lt _ (by decide)) chunk inputs ?_ store
  rw [aggDeltaHashSlots]
  rw [pipelineDefaultChunkSize] at hcount ⊢
  omega

theorem updateAggregatesBatch_eq (chunk : DataChunk) (inputs : List (Nat × Nat))
    (hcount : inputs.length ≤ pipelineDefaultChunkSize) (store : Nat → States aggs) :
    updateAggregatesBatch chunk inputs store =
      some (updateAggregatesInOrder chunk inputs store) := by
  refine updateAggregatesGrouped_eq (fun _ => Nat.mod_lt _ (by decide)) chunk inputs ?_ store
  rw [aggDeltaHashSlots]
  rw [pipelineDefaultChunkSize] at hcount ⊢
  omega

/-- **The grouped updates are the update row by row**: for every chunk, every assignment of its
rows to rows of the store and every list of aggregates, both of them end, and leave the states
that `UpdateAggregates` leaves. -/
theorem grouped_updates_eq_in_order (chunk : DataChunk) (inputs : List (Nat × Nat))
    (hcount : inputs.length ≤ pipelineDefaultChunkSize) (store : Nat → States aggs) :
    updateAggregatesGather chunk inputs store =
        some (updateAggregatesInOrder chunk inputs store) ∧
      updateAggregatesBatch chunk inputs store =
        some (updateAggregatesInOrder chunk inputs store) :=
  ⟨updateAggregatesGather_eq chunk inputs hcount store,
    updateAggregatesBatch_eq chunk inputs hcount store⟩

/-- A chunk with integers in its first slot. -/
def int64Chunk (count : Nat) (values : Nat → Int64) (nulls : Nat → UInt8) : DataChunk where
  count := count
  int32 := ⟨fun _ _ => 0, fun _ _ => 0, fun _ => ⟨false, 0⟩⟩
  int64 := ⟨fun _ => values, fun _ _ => 0, fun _ => ⟨false, 0⟩⟩
  double := ⟨fun _ _ => 0, fun _ _ => 0, fun _ => ⟨false, 0⟩⟩
  string := ⟨fun _ _ => [], fun _ _ => 0, fun _ => ⟨false, 0⟩⟩
  nulls _ := nulls

/-- The least value of three rows in two groups, the second row in a group of its own whose slot
comes after that of the other. -/
theorem grouped_updates_three_rows :
    (updateAggregatesGather (int64Chunk 3 (fun row => Int64.ofNat (7 - row)) fun _ => 0)
        [(4096, 0), (0, 1), (4096, 2)] fun _ => initStates :
      Option (Nat → States [⟨.minInt64, 0, 0, 0, 0⟩])) =
      some (updateAggregatesInOrder (int64Chunk 3 (fun row => Int64.ofNat (7 - row)) fun _ => 0)
        [(4096, 0), (0, 1), (4096, 2)] fun _ => initStates) :=
  (grouped_updates_eq_in_order _ _ (by decide) _).1

end AggregateStates
end PgYaap
