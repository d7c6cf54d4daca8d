import PgYaap.AggregateTableGrowth
import PgYaap.HashJoinProbe

/-! # The capacity of the directory

A table of the aggregate, local to a worker, of distinct keys, or of a global partition, begins
with a directory for the groups that are expected. `SinkChunk` enters batches and `Combine` rows
of other tables: each grows the row store until the rows fit, enters them, and doubles the
directory where it is two thirds full. A doubled directory has no bound, but one that is chosen
anew has: growing the row store of a table with more than `maxCapacity` groups gives it fewer
slots than rows. -/
namespace PgYaap

open ColumnSlots AggregateStates HashJoinBuild ProbedTables TupleDataCollection

namespace AggregateHashTable

/-! ## Calls -/

/-- A table: the directory and the row store. -/
abbrev Table : Type := AggregateHashTable × TupleDataCollection

/-- What the aggregate enters into a table: the rows of a chunk in `SinkChunk`, or a row of
another table in `Combine`. -/
inductive TableCall
  | sink (aarch64 : Bool) (chunk : DataChunk) (inputs : List BatchProbeInput)
  | combine (src : TupleDataCollection) (srcRow : Nat)

namespace TableCall

/-- The condition of the loop that grows the row store. -/
def needsGrow (layout : AggregateLayout) : TableCall → TupleDataCollection → Bool
  | .sink _ chunk inputs, t =>
    partitionNeedsGrowForChunkBatch layout t chunk (inputs.map BatchProbeInput.rowIdx)
  | .combine src srcRow, t => partitionNeedsGrowForRow layout t src srcRow

/-- The heap bytes that the loop asks for. -/
def requiredHeapBytes (layout : AggregateLayout) : TableCall → Nat
  | .sink _ chunk inputs =>
    requiredHeapBytesForChunkRows layout chunk (inputs.map BatchProbeInput.rowIdx)
  | .combine src srcRow => requiredHeapBytesForRow layout.toTupleDataLayout src srcRow

/-- What follows the loop. -/
def enter (layout : AggregateLayout) : TableCall → Table → Except String Table
  | .sink aarch64 chunk inputs, s => do
    let out ← findOrInsertBatch aarch64 layout chunk s.1 s.2 inputs
    return (out.1, out.2.1)
  | .combine src srcRow, s =>
    combineRow layout s.1 s.2 src srcRow (hashGroupRowAt layout.toTupleDataLayout src srcRow)

/-- The groups of the rows of a call. -/
def groups (layout : AggregateLayout) : TableCall → List (List Datum)
  | .sink _ chunk inputs => inputs.map fun input => input.group layout chunk
  | .combine src srcRow => [src.decodeRow layout.toTupleDataLayout srcRow]

/-- What the callers see to: a chunk has at most `chunkSize` rows, hashed by their groups, and
the row of another table is a stored row. -/
def Valid (layout : AggregateLayout) : TableCall → Prop
  | .sink _ chunk inputs => inputs.length ≤ HashJoinProbe.chunkSize ∧
    ∀ input ∈ inputs, input.hash = hashGroup layout.descs chunk input.rowIdx
  | .combine src srcRow => ∃ row, FilledRow layout src srcRow row

end TableCall

/-- The groups of a row store. -/
def storedGroups (layout : AggregateLayout) (t : TupleDataCollection) : List (List Datum) :=
  (List.range t.rowCount).map (t.decodeRow layout.toTupleDataLayout)

local instance lawfulBEq_groups : LawfulBEq (List Datum) := inferInstance

/-- The groups of a call that the row store does not have, once each. -/
def newGroups (layout : AggregateLayout) (t : TupleDataCollection) (call : TableCall) :
    List (List Datum) :=
  ((call.groups layout).filter fun k => k ∉ storedGroups layout t).dedup

/-! ## Runs -/

/-- The turns of the loop that grows the row store. -/
inductive Growing (layout : AggregateLayout) (call : TableCall) (s : Table) : Table → Prop
  | start : Growing layout call s s
  | turn {s' s'' : Table} {owner : String} (h : Growing layout call s s')
      (hneeds : call.needsGrow layout s'.2 = true)
      (hok : growTdc owner layout s'.2 (call.requiredHeapBytes layout) = .ok s'') :
      Growing layout call s s''

/-- **The runs of a table**, over calls that are allowed: it is initialized, rows are entered,
and states of its rows are updated. -/
inductive TableRun (layout : AggregateLayout) (allowed : Table → TableCall → Prop) :
    Table → Prop
  | new {maxGroups : Nat} {t : TupleDataCollection}
      (halloc : allocate maxGroups layout.rowWidth
        (defaultHeapCapacity layout.toTupleDataLayout maxGroups) = .ok t) :
      TableRun layout allowed
        (init (chooseCapacity maxGroups) (chooseCapacity_powerOfTwo maxGroups), t)
  | call {s s' s'' : Table} {aht : AggregateHashTable} {call : TableCall}
      (h : TableRun layout allowed s) (hvalid : call.Valid layout) (hallowed : allowed s call)
      (hgrow : Growing layout call s s') (hfits : call.needsGrow layout s'.2 = false)
      (henter : call.enter layout s' = .ok s'')
      (hresize : resizeAhtForTdc layout s''.1 s''.2 = .ok aht) :
      TableRun layout allowed (aht, s''.2)
  | update {s : Table} {t : TupleDataCollection} {r : Nat} (h : TableRun layout allowed s)
      (hr : r < s.2.rowCount) (honly : OnlyStates s.2 t r layout.aggregates) :
      TableRun layout allowed (s.1, t)

/-- **The directory is never full**: every growth finds slots for the rows, the directory has
more slots than rows before a call enters its own, and slots for all of these. -/
structure NeverFull (layout : AggregateLayout) (s : Table) (call : TableCall) : Prop where
  grow : ∀ s', Growing layout call s s' → call.needsGrow layout s'.2 = true →
    ∀ owner t, growRowStore owner layout s'.2 (call.requiredHeapBytes layout) = .ok t →
      ∃ aht, growTdc owner layout s'.2 (call.requiredHeapBytes layout) = .ok (aht, t)
  room : ∀ s', Growing layout call s s' → call.needsGrow layout s'.2 = false →
    s'.2.rowCount < s'.1.capacity ∧
      s'.2.rowCount + (newGroups layout s'.2 call).length ≤ s'.1.capacity
  enter : ∀ s', Growing layout call s s' → call.needsGrow layout s'.2 = false →
    ∃ s'', call.enter layout s' = .ok s'' ∧ s''.2.rowCount ≤ s''.1.capacity ∧
      ∃ aht, resizeAhtForTdc layout s''.1 s''.2 = .ok aht

/-- Where the row store has to grow, the largest directory that is chosen has slots for the
rows and the new groups of the call. -/
def WithinMaxCapacity (layout : AggregateLayout) (s : Table) (call : TableCall) : Prop :=
  call.needsGrow layout s.2 = true →
    s.2.rowCount + max 1 (newGroups layout s.2 call).length ≤ maxCapacity

/-! ## Rows of a table -/

section Rows

variable {layout : AggregateLayout} {s s' s'' : Table} {call : TableCall}
  {rows rows' : List (StoredRow layout)}

theorem Represents.storedGroups_eq {aht : AggregateHashTable} {t : TupleDataCollection}
    (h : Represents layout aht t rows) : storedGroups layout t = rows.map Prod.fst := by
  refine List.ext_getElem? fun r => ?_
  rw [storedGroups, List.getElem?_map, List.getElem?_map]
  by_cases hr : r < t.rowCount
  · rw [h.getElem?_eq hr, List.getElem?_range hr]
    rfl
  · have hlength := h.holds.rowCount
    rw [List.getElem?_eq_none (by rw [List.length_range]; omega),
      List.getElem?_eq_none (by omega)]
    rfl

/-- The table stands for rows, its directory goes with its row capacity up to `maxCapacity`, and
its heap is one that was allocated. -/
structure Sized (layout : AggregateLayout) (s : Table) (rows : List (StoredRow layout)) :
    Prop where
  represents : Represents layout s.1 s.2 rows
  slots : s.2.rowCapacity < s.1.capacity ∨ maxCapacity ≤ s.1.capacity
  heap : s.2.heapCapacity < uint32Max

/-- What holds between calls: less than two thirds of the directory are taken. -/
structure Settled (layout : AggregateLayout) (s : Table) (rows : List (StoredRow layout)) :
    Prop extends Sized layout s rows where
  load : 3 * s.2.rowCount < 2 * s.1.capacity

/-- A turn of the loop keeps the rows, and chooses the directory anew. -/
theorem Sized.grow (h : Sized layout s rows) {owner : String} {required : Nat}
    (hok : growTdc owner layout s.2 required = .ok s') :
    Sized layout s' rows ∧ s'.1.capacity = chooseCapacity s'.2.rowCapacity := by
  obtain ⟨aht, t⟩ := s'
  have hkept := h.represents.grow hok
  obtain ⟨hstore, htable⟩ := growTdc_eq_ok.1 hok
  have hcapacity : aht.capacity = chooseCapacity t.rowCapacity :=
    (rehash_indexes (growRowStore_holds h.represents.holds hstore) h.represents.indexes.nodup
      htable).2
  refine ⟨⟨hkept, ?_, ?_⟩, hcapacity⟩
  · show t.rowCapacity < aht.capacity ∨ maxCapacity ≤ aht.capacity
    rw [hcapacity]
    exact lt_chooseCapacity t.rowCapacity
  · have hcheck := checkFlatAllocSize_eq_ok.1 (growRowStore_grown hstore).1.checked
    show t.heapCapacity < uint32Max
    unfold maxFlatAllocBytes at hcheck
    unfold uint32Max
    omega

/-- **The loop keeps the rows.** It only turns where the table needed to grow before it. -/
theorem Growing.sized (hgrow : Growing layout call s s') (h : Sized layout s rows) :
    Sized layout s' rows ∧ (s' = s ∨ call.needsGrow layout s.2 = true) := by
  induction hgrow with
  | start => exact ⟨h, Or.inl rfl⟩
  | turn _ hneeds hok ih =>
    obtain ⟨hsized, hcase⟩ := ih
    refine ⟨(hsized.grow hok).1, Or.inr ?_⟩
    rcases hcase with rfl | hfirst
    · exact hneeds
    · exact hfirst

theorem Sized.newGroups_eq (h : Sized layout s rows) (h' : Sized layout s' rows)
    (call : TableCall) : newGroups layout s'.2 call = newGroups layout s.2 call := by
  rw [newGroups, newGroups, h.represents.storedGroups_eq, h'.represents.storedGroups_eq]

theorem Sized.rowCount_eq (h : Sized layout s rows) (h' : Sized layout s' rows) :
    s'.2.rowCount = s.2.rowCount :=
  h'.represents.holds.rowCount.trans h.represents.holds.rowCount.symm

/-! ## Room -/

/-- What the loop leaves: room in the row store for the rows of the call. -/
theorem rows_of_fits {t : TupleDataCollection} (h : call.needsGrow layout t = false) :
    t.rowCount < t.rowCapacity ∧ t.rowCount + (call.groups layout).length ≤ t.rowCapacity := by
  cases call with
  | sink aarch64 chunk inputs =>
    obtain ⟨hrows, hspace⟩ := partitionNeedsGrowForChunkBatch_eq_false.1 h
    rw [List.length_map] at hrows
    refine ⟨(hasSpaceForAppend_iff.1 hspace).1, ?_⟩
    rw [TableCall.groups, List.length_map]
    exact hrows
  | combine src srcRow =>
    have hspace := partitionNeedsGrowForRow_eq_false.1 h
    have hrow := (hasSpaceForAppend_iff.1 hspace).1
    exact ⟨hrow, hrow⟩

theorem length_groups_le (hvalid : call.Valid layout) :
    (call.groups layout).length ≤ HashJoinProbe.chunkSize := by
  cases call with
  | sink aarch64 chunk inputs =>
    rw [TableCall.groups, List.length_map]
    exact hvalid.1
  | combine src srcRow =>
    show 1 ≤ 2048
    omega

theorem length_newGroups_le (layout : AggregateLayout) (t : TupleDataCollection)
    (call : TableCall) : (newGroups layout t call).length ≤ (call.groups layout).length :=
  ((List.dedup_sublist _).trans List.filter_sublist).length_le

/-- **The slots for a call**: where the table did not grow, a third of the directory is free. -/
theorem Settled.slots_of_fits (h : Settled layout s rows) (hvalid : call.Valid layout)
    (hwithin : WithinMaxCapacity layout s call) (hgrow : Growing layout call s s')
    (hfits : call.needsGrow layout s'.2 = false) :
    s'.2.rowCount < s'.1.capacity ∧
      s'.2.rowCount + (newGroups layout s'.2 call).length ≤ s'.1.capacity := by
  obtain ⟨hsized, hcase⟩ := hgrow.sized h.toSized
  have hrows := rows_of_fits hfits
  have hnew := length_newGroups_le layout s'.2 call
  rcases hsized.slots with hslots | hslots
  · omega
  · rcases hcase with rfl | hneeds
    · have hload := h.load
      have hlength := length_groups_le hvalid
      have hchunk : HashJoinProbe.chunkSize = 2048 := rfl
      have hmax : maxCapacity = 4194304 := rfl
      omega
    · have hroom := hwithin hneeds
      rw [h.toSized.newGroups_eq hsized, h.toSized.rowCount_eq hsized]
      omega

/-! ## Heap -/

/-- Bounded summands: where the sum is below the bound they are all below it. -/
theorem sum_min_eq {α : Type} {f : α → Nat} {m : Nat} {l : List α}
    (h : (l.map fun a => min (f a) m).sum < m) :
    (l.map fun a => min (f a) m).sum = (l.map f).sum := by
  induction l with
  | nil => rfl
  | cons a l ih =>
    rw [List.map_cons, List.sum_cons] at h
    rw [List.map_cons, List.sum_cons, List.map_cons, List.sum_cons, ih (by omega)]
    omega

/-- **What a chunk row requires** is what its values need. -/
theorem requiredHeapBytesForChunkRow_eq (layout : TupleDataLayout) (chunk : DataChunk)
    (rowIdx : Nat) :
    requiredHeapBytesForChunkRow layout chunk rowIdx =
      min (rowHeapBytes (chunk.groupColumns layout.descs rowIdx)) uint32Max := by
  unfold requiredHeapBytesForChunkRow rowHeapBytes DataChunk.groupColumns TupleDataLayout.descs
  rw [List.map_map, List.map_map]
  congr 1
  induction layout.columns with
  | nil => rfl
  | cons col cols ih =>
    rw [List.map_cons, List.sum_cons, ← ih]
    by_cases hkind : col.kind = .stringRef
    · rw [List.filter_cons_of_pos (by simpa using hkind), List.map_cons, List.sum_cons]
      congr 1
      show _ = valueHeapBytes (chunk.get col.kind col.srcColIdx rowIdx)
      rw [hkind]
      rfl
    · rw [List.filter_cons_of_neg (by simpa using hkind)]
      have hzero : valueHeapBytes (chunk.get col.kind col.srcColIdx rowIdx) = 0 := by
        cases hk : col.kind with
        | stringRef => exact absurd hk hkind
        | int32 | int64 | double => rfl
      show _ = valueHeapBytes (chunk.get col.kind col.srcColIdx rowIdx) + _
      rw [hzero, Nat.zero_add]

/-- The heap bytes that the groups of a call need. -/
theorem requiredHeapBytes_eq (layout : AggregateLayout) (call : TableCall)
    (h : call.requiredHeapBytes layout < uint32Max) :
    call.requiredHeapBytes layout = ((call.groups layout).map rowHeapBytes).sum := by
  cases call with
  | sink aarch64 chunk inputs =>
    rw [TableCall.requiredHeapBytes, requiredHeapBytesForChunkRows, List.map_map] at h ⊢
    rw [TableCall.groups, List.map_map]
    have hsum : (inputs.map (requiredHeapBytesForChunkRow layout.toTupleDataLayout chunk ∘
        BatchProbeInput.rowIdx)) = inputs.map fun input =>
          min (rowHeapBytes (input.group layout chunk)) uint32Max :=
      List.map_congr_left fun input _ => requiredHeapBytesForChunkRow_eq _ chunk input.rowIdx
    rw [hsum] at h ⊢
    rw [Nat.min_eq_left (by omega), sum_min_eq (by omega)]
    rfl
  | combine src srcRow =>
    rw [TableCall.requiredHeapBytes, requiredHeapBytesForRow_eq] at h ⊢
    show _ = rowHeapBytes (src.decodeRow layout.toTupleDataLayout srcRow) + 0
    omega

/-- What the loop leaves: room in the heap for the groups of the call. -/
theorem Sized.heap_of_fits (h : Sized layout s rows)
    (hfits : call.needsGrow layout s.2 = false) :
    s.2.heapUsed + ((call.groups layout).map rowHeapBytes).sum ≤ s.2.heapCapacity := by
  have hspace : call.requiredHeapBytes layout = 0 ∨
      s.2.heapUsed + call.requiredHeapBytes layout ≤ s.2.heapCapacity := by
    cases call with
    | sink aarch64 chunk inputs =>
      have hspace := (partitionNeedsGrowForChunkBatch_eq_false.1 hfits).2
      exact (hasSpaceForAppend_iff.1 hspace).2
    | combine src srcRow =>
      have hspace := partitionNeedsGrowForRow_eq_false.1 hfits
      exact (hasSpaceForAppend_iff.1 hspace).2
  have hheap := h.heap
  have hle := h.represents.holds.heap_le
  have hmax : 0 < uint32Max := by decide
  rw [← requiredHeapBytes_eq layout call (by omega)]
  omega

/-! ## Entering -/

/-- A row that the heap has room for is copied into a new row. -/
theorem copyGroup_of_fits {src dst : TupleDataCollection} {srcRow dstRow : Nat}
    (h : dst.heapUsed + rowHeapBytes (src.decodeRow layout.toTupleDataLayout srcRow) ≤
      dst.heapCapacity) : ∃ dst', copyGroup layout src srcRow dst dstRow = .ok dst' := by
  obtain ⟨mid, hmid⟩ := @copyBuildRow_of_fits src dst srcRow dstRow layout.toTupleDataLayout h
  refine ⟨mid.initAggregates layout dstRow, ?_⟩
  unfold copyGroup
  rw [hmid]
  rfl

/-- A copied group takes the heap bytes of its values, and changes no counter else. -/
theorem copyGroup_eq {src dst dst' : TupleDataCollection} {srcRow dstRow : Nat}
    (h : copyGroup layout src srcRow dst dstRow = .ok dst') :
    ∃ rows, dst' = { dst with
      heapUsed := dst.heapUsed + rowHeapBytes (src.decodeRow layout.toTupleDataLayout srcRow)
      rows := rows } := by
  unfold copyGroup at h
  obtain ⟨mid, hmid, hpure⟩ := bind_eq_ok h
  obtain ⟨rows, rfl⟩ := copyBuildRow_eq (mapError_eq_ok hmid)
  obtain ⟨rows', hrows'⟩ := initAggregates_eq layout { dst with
    heapUsed := dst.heapUsed + rowHeapBytes (src.decodeRow layout.toTupleDataLayout srcRow)
    rows := rows } dstRow
  rw [← Except.ok.inj hpure]
  exact ⟨rows', hrows'⟩

/-- The counters that a call leaves alone. -/
structure SameSize (s s' : Table) : Prop where
  capacity : s'.1.capacity = s.1.capacity
  rowCapacity : s'.2.rowCapacity = s.2.rowCapacity
  heapCapacity : s'.2.heapCapacity = s.2.heapCapacity

/-- **A batch that fits is entered.** -/
theorem Sized.enter_sink (h : Sized layout s rows) {aarch64 : Bool} {chunk : DataChunk}
    {inputs : List BatchProbeInput}
    (hvalid : (TableCall.sink aarch64 chunk inputs).Valid layout)
    (hfits : (TableCall.sink aarch64 chunk inputs).needsGrow layout s.2 = false)
    (hslots : s.2.rowCount + (newGroups layout s.2 (.sink aarch64 chunk inputs)).length ≤
      s.1.capacity) :
    ∃ s' rows', (TableCall.sink aarch64 chunk inputs).enter layout s = .ok s' ∧
      Represents layout s'.1 s'.2 rows' ∧ SameSize s s' := by
  have hnew : Batch.newGroups ⟨chunk, inputs, s.1, s.2, rows, h.represents, hvalid.2⟩ =
      newGroups layout s.2 (.sink aarch64 chunk inputs) := by
    rw [newGroups, h.represents.storedGroups_eq]
    rfl
  have hcount := h.represents.holds.rowCount
  have hroom : Batch.Room ⟨chunk, inputs, s.1, s.2, rows, h.represents, hvalid.2⟩ := by
    refine ⟨?_, ?_, ?_⟩
    · rw [hnew]
      have hrows := rows_of_fits hfits
      have hle := length_newGroups_le layout s.2 (.sink aarch64 chunk inputs)
      dsimp only
      omega
    · rw [hnew]
      dsimp only
      omega
    · rw [hnew]
      have hheap := h.heap_of_fits hfits
      have hsub : newGroups layout s.2 (.sink aarch64 chunk inputs) ⊆
          (TableCall.sink aarch64 chunk inputs).groups layout :=
        fun k hk => (List.mem_filter.1 (List.mem_dedup.1 hk)).1
      have hle := (Batch.sum_le_of_subset (List.nodup_dedup _) hsub).2
      dsimp only
      exact Nat.le_trans (Nat.add_le_add_left hle _) hheap
  rcases Batch.findOrInsertBatch_spec
      (b := ⟨chunk, inputs, s.1, s.2, rows, h.represents, hvalid.2⟩) aarch64 with
    ⟨e, -, hno⟩ | ⟨out, st, added, hok, hends⟩
  · exact absurd hroom hno
  · have hworking := hends.working
    have hout := hends.out_eq
    refine ⟨(st.aht, st.tdc), _, ?_, hworking.represents,
      ⟨hworking.capacity, hworking.rowCapacity, hworking.heapCapacity⟩⟩
    rw [TableCall.enter, bind_eq_of_eq_ok hok, hout]
    rfl

/-- What combining a row leaves alone. -/
theorem combineRow_sameSize {src : TupleDataCollection} {srcRow : Nat} {hash : UInt64}
    (hok : combineRow layout s.1 s.2 src srcRow hash = .ok s') : SameSize s s' := by
  unfold combineRow at hok
  split at hok
  · split at hok
    · cases hok
    · rename_i dst newIdx happ
      obtain ⟨mid, hmid, hpure⟩ := bind_eq_ok hok
      obtain rfl := Except.ok.inj hpure
      obtain ⟨-, rfl, -⟩ := appendRow_eq happ
      obtain ⟨bytes, rfl⟩ := copyGroup_eq hmid
      have honly := (combineAggregatesAt_spec layout { s.2 with
        rowCount := s.2.rowCount + 1
        heapUsed := s.2.heapUsed + rowHeapBytes (src.decodeRow layout.toTupleDataLayout srcRow)
        rows := bytes } newIdx src srcRow).1.eq
      exact ⟨rfl, by rw [honly], by rw [honly]⟩
  · rename_i existing hfound
    obtain rfl := Except.ok.inj hok
    have honly := (combineAggregatesAt_spec layout s.2 existing src srcRow).1.eq
    exact ⟨rfl, by rw [honly], by rw [honly]⟩
  · cases hok

/-- **A row of another table that fits is combined.** -/
theorem Sized.enter_combine (hfirst : ColumnsFirst layout) (h : Sized layout s rows)
    {src : TupleDataCollection} {srcRow : Nat}
    (hvalid : (TableCall.combine src srcRow).Valid layout)
    (hfits : (TableCall.combine src srcRow).needsGrow layout s.2 = false)
    (hslots : s.2.rowCount < s.1.capacity) :
    ∃ s' rows', (TableCall.combine src srcRow).enter layout s = .ok s' ∧
      Represents layout s'.1 s'.2 rows' ∧ SameSize s s' := by
  obtain ⟨row, hrow⟩ := hvalid
  have hends := h.represents.probe_ends hfirst hrow
  have hcount := h.represents.holds.rowCount
  have hfull := hends.ne_full h.represents.indexes (by rw [List.length_map, ← hcount]; exact hslots)
  have hok : ∃ s', combineRow layout s.1 s.2 src srcRow
      (hashGroupRowAt layout.toTupleDataLayout src srcRow) = .ok s' := by
    unfold combineRow
    generalize s.1.probe _ _ = outcome at hfull
    cases outcome with
    | found existing => exact ⟨_, rfl⟩
    | empty slot =>
      have hheap := h.heap_of_fits hfits
      rw [TableCall.groups, List.map_singleton, List.sum_singleton] at hheap
      dsimp only
      unfold appendRow
      rw [if_neg (Nat.not_le_of_lt (rows_of_fits hfits).1)]
      dsimp only
      obtain ⟨mid, hmid⟩ := @copyGroup_of_fits layout src
        { s.2 with rowCount := s.2.rowCount + 1 } srcRow s.2.rowCount hheap
      rw [bind_eq_of_eq_ok hmid]
      exact ⟨_, rfl⟩
    | full => exact absurd rfl hfull
  obtain ⟨⟨aht', t'⟩, hs'⟩ := hok
  obtain ⟨rows', hrows', -⟩ := h.represents.combineRow hfirst hrow hs'
  exact ⟨(aht', t'), rows', hs', hrows', combineRow_sameSize hs'⟩

/-- **A call that fits is entered**, and leaves the sizes as they are. -/
theorem Sized.enter (hfirst : ColumnsFirst layout) (h : Sized layout s rows)
    (hvalid : call.Valid layout) (hfits : call.needsGrow layout s.2 = false)
    (hslots : s.2.rowCount < s.1.capacity ∧
      s.2.rowCount + (newGroups layout s.2 call).length ≤ s.1.capacity) :
    ∃ s' rows', call.enter layout s = .ok s' ∧ Represents layout s'.1 s'.2 rows' ∧
      SameSize s s' := by
  cases call with
  | sink aarch64 chunk inputs => exact h.enter_sink hvalid hfits hslots.2
  | combine src srcRow => exact h.enter_combine hfirst hvalid hfits hslots.1

/-- **After a resize** a third of the directory is free again. -/
theorem Sized.settle (h : Sized layout s rows) (h' : Represents layout s'.1 s'.2 rows')
    (hsame : SameSize s s') {aht : AggregateHashTable}
    (hok : resizeAhtForTdc layout s'.1 s'.2 = .ok aht) : Settled layout (aht, s'.2) rows' := by
  have hrows := h'.resize hok
  have hcapacity := hsame.capacity
  have hslots := h.slots
  rw [← hsame.rowCapacity, ← hsame.capacity] at hslots
  have hheap := h.heap
  rw [← hsame.heapCapacity] at hheap
  have hle := h'.indexes.length_le
  rw [List.length_map, ← h'.holds.rowCount] at hle
  unfold resizeAhtForTdc at hok
  split at hok
  · rename_i hload
    obtain rfl := Except.ok.inj hok
    rw [shouldResize, decide_eq_false_iff_not] at hload
    refine ⟨⟨hrows, hslots, hheap⟩, ?_⟩
    dsimp only
    omega
  · have hdouble := (rehash_indexes h'.holds h'.indexes.nodup hok).2
    have hpos := s'.1.capacity_pos
    change aht.capacity = s'.1.capacity <<< 1 at hdouble
    rw [Nat.shiftLeft_eq] at hdouble
    refine ⟨⟨hrows, ?_, hheap⟩, ?_⟩
    · dsimp only
      omega
    · dsimp only
      omega

/-! ## Runs within the largest directory -/

/-- A new table. -/
theorem settled_new {maxGroups : Nat} {t : TupleDataCollection}
    (halloc : allocate maxGroups layout.rowWidth
      (defaultHeapCapacity layout.toTupleDataLayout maxGroups) = .ok t) :
    Settled layout (init (chooseCapacity maxGroups) (chooseCapacity_powerOfTwo maxGroups), t)
      [] := by
  have hheap := heapCapacity_of_allocate halloc
  have hholds := allocate_holdsRows (Nat.lt_trans hheap (by decide)) halloc
  obtain ⟨-, rfl⟩ := allocate_eq halloc
  refine ⟨⟨⟨hholds, indexes_nil fun _ => rfl⟩, lt_chooseCapacity maxGroups, hheap⟩, ?_⟩
  have hpos := (init (chooseCapacity maxGroups) (chooseCapacity_powerOfTwo maxGroups)).capacity_pos
  dsimp only at hpos ⊢
  omega

/-- **What a run keeps.** -/
theorem TableRun.settled (hfirst : ColumnsFirst layout)
    (h : TableRun layout (WithinMaxCapacity layout) s) : ∃ rows, Settled layout s rows := by
  induction h with
  | new halloc => exact ⟨[], settled_new halloc⟩
  | call h hvalid hallowed hgrow hfits henter hresize ih =>
    obtain ⟨rows, hsettled⟩ := ih
    have hslots := hsettled.slots_of_fits hvalid hallowed hgrow hfits
    have hsized := (hgrow.sized hsettled.toSized).1
    obtain ⟨s₁, rows', hok, hrows', hsame⟩ := hsized.enter hfirst hvalid hfits hslots
    obtain rfl := Except.ok.inj (henter.symm.trans hok)
    exact ⟨rows', hsized.settle hrows' hsame hresize⟩
  | update h hr honly ih =>
    obtain ⟨rows, hsettled⟩ := ih
    obtain ⟨rows', hrows', -⟩ := hsettled.represents.onlyStates hr honly
    refine ⟨rows', ⟨hrows', ?_, ?_⟩, ?_⟩
    · rw [honly.eq]
      exact hsettled.slots
    · rw [honly.eq]
      exact hsettled.heap
    · rw [honly.eq]
      exact hsettled.load

end Rows

/-! ## A table of keys -/

theorem ordered_nil : ([] : List TdcAggregateDesc).Pairwise fun a b => a.stop ≤ b.offset :=
  List.Pairwise.nil

/-- A layout with one integer column and no aggregates. -/
def keyLayout : AggregateLayout where
  columns := [⟨⟨.int64, 0⟩, 0, 20, 0⟩]
  rowWidth := 8
  placed := ⟨Nat.zero_le _, show 0 + 8 ≤ 8 by decide⟩
  aggregates := []
  inside := fun _ h => absurd h List.not_mem_nil
  ordered := ordered_nil
  apart := fun _ h => absurd h List.not_mem_nil

theorem keyLayout_columnsFirst : ColumnsFirst keyLayout := by
  unfold ColumnsFirst
  decide

/-- The group of key `n`. -/
def key (n : Nat) : List Datum := [.int64 (Int64.ofNat n)]

theorem key_injective {m n : Nat} (hm : m ≤ maxCapacity) (hn : n ≤ maxCapacity)
    (h : key m = key n) : m = n := by
  have hmax : maxCapacity = 4194304 := rfl
  have hval : Int64.ofNat m = Int64.ofNat n := Datum.int64.inj (List.cons.inj h).1
  have hnat := congrArg Int64.toInt hval
  rwa [Int64.toInt_ofNat_of_lt (by omega), Int64.toInt_ofNat_of_lt (by omega),
    Int.ofNat_inj] at hnat

/-- A row store that has key `n` as its only row. -/
def keyStore (n : Nat) : TupleDataCollection :=
  ⟨8, 1, 1, 0, 0, ByteMemory.write (fun _ => 0) 0
    (ByteMemory.encode 8 (Int64.ofNat n).toUInt64.toNat)⟩

theorem keyStore_filled (n : Nat) : FilledRow keyLayout (keyStore n) 0 (key n, initStates) := by
  have hnew : HoldsRows keyLayout ⟨8, 1, 0, 0, 0, fun _ => 0⟩ [] :=
    @allocate_holdsRows keyLayout _ 1 0 (by decide) rfl
  have happ : appendRow ⟨8, 1, 0, 0, 0, fun _ => 0⟩ = some (⟨8, 1, 1, 0, 0, fun _ => 0⟩, 0) := rfl
  have hscatter : scatterGroup keyLayout ⟨8, 1, 1, 0, 0, fun _ => 0⟩ 0
      (int64Chunk 1 (fun _ => Int64.ofNat n) fun _ => 0, 0) = .ok (keyStore n) := rfl
  exact (hnew.append_scatterGroup happ hscatter).row 0 _ rfl

/-- The call that enters key `n`. -/
def keyCall (n : Nat) : TableCall := .combine (keyStore n) 0

theorem keyCall_valid (n : Nat) : (keyCall n).Valid keyLayout := ⟨_, keyStore_filled n⟩

/-- A table that has entered the first `n` keys, one after another. -/
structure Keyed (n : Nat) (s : Table) (rows : List (StoredRow keyLayout)) : Prop where
  run : TableRun keyLayout (fun _ _ => True) s
  settled : Settled keyLayout s rows
  groups : rows.map Prod.fst = (List.range n).map key
  heapCapacity : s.2.heapCapacity = 0
  rowCapacity : ∃ j ≤ 14, s.2.rowCapacity = 256 * 2 ^ j

theorem Keyed.rowCount {n : Nat} {s : Table} {rows : List (StoredRow keyLayout)}
    (h : Keyed n s rows) : s.2.rowCount = n := by
  have hlength := congrArg List.length h.groups
  rw [List.length_map, List.length_map, List.length_range] at hlength
  rw [h.settled.represents.holds.rowCount, hlength]

theorem keyed_zero : ∃ s rows, Keyed 0 s rows := by
  have halloc : allocate 256 keyLayout.rowWidth
      (defaultHeapCapacity keyLayout.toTupleDataLayout 256) =
        .ok ⟨8, 256, 0, 0, 0, fun _ => 0⟩ := rfl
  exact ⟨_, [], TableRun.new halloc, settled_new halloc, rfl, rfl, 0, by omega, rfl⟩

/-- Without strings only the rows count. -/
theorem keyCall_needsGrow {n : Nat} {t : TupleDataCollection} :
    (keyCall n).needsGrow keyLayout t = false ↔ t.rowCount < t.rowCapacity := by
  rw [keyCall, TableCall.needsGrow, partitionNeedsGrowForRow_eq_false, hasSpaceForAppend_iff]
  exact ⟨fun h => h.1, fun h => ⟨h, Or.inl rfl⟩⟩

/-- **The row store doubles**, up to twice `maxCapacity` rows. -/
theorem keyStore_grows {s : Table} {rows : List (StoredRow keyLayout)}
    (h : Sized keyLayout s rows) (hheap : s.2.heapCapacity = 0) {j : Nat} (hj : j ≤ 14)
    (hcapacity : s.2.rowCapacity = 256 * 2 ^ j) (hfull : s.2.rowCount = s.2.rowCapacity) :
    ∃ t, growRowStore "pg_yaap: hash aggregate" keyLayout s.2 0 = .ok t ∧
      t.rowCapacity = 256 * 2 ^ (j + 1) ∧ t.heapCapacity = 0 := by
  have hpow : 2 ^ j ≤ 2 ^ 14 := Nat.pow_le_pow_right (by decide) hj
  have hpos : 0 < 2 ^ j := Nat.two_pow_pos j
  have hproposed : max (s.2.rowCapacity * 2 % 2 ^ 32) (s.2.rowCount + 1) = 256 * 2 ^ (j + 1) := by
    rw [Nat.pow_succ]
    omega
  have hclamp : clampRowCapacity (256 * 2 ^ (j + 1)) keyLayout.rowWidth 0 (s.2.rowCount + 1) =
      .ok (256 * 2 ^ (j + 1)) := by
    unfold clampRowCapacity maxFlatAllocBytes headerBytes
    rw [if_neg (by decide), if_neg (by decide)]
    dsimp only
    have hrows : (2 ^ 64 + 3 * 1024 * 1024 * 1024 - 40 - 0) % 2 ^ 64 / keyLayout.rowWidth =
        402653179 := rfl
    rw [hrows, if_neg (by omega), Nat.min_eq_left (by rw [Nat.pow_succ]; omega)]
  have hcheck : checkFlatAllocSize (256 * 2 ^ (j + 1)) keyLayout.rowWidth 0 = .ok () := by
    rw [checkFlatAllocSize_eq_ok, Nat.pow_succ]
    show 40 + 256 * (2 ^ j * 2) * 8 + 0 < 3 * 1024 * 1024 * 1024
    omega
  have hgrow : growHeapCapacity keyLayout.toTupleDataLayout s.2 (256 * 2 ^ (j + 1)) 0 =
      .ok 0 := by
    have hdefault : defaultHeapCapacity keyLayout.toTupleDataLayout (256 * 2 ^ (j + 1)) = 0 := by
      show min (256 * 2 ^ (j + 1) * 0 * 96) uint32Max = 0
      omega
    unfold growHeapCapacity
    rw [if_pos hheap]
    dsimp only
    rw [hdefault, h.represents.holds.rowWidth, bind_eq_of_eq_ok hcheck]
    rfl
  rw [← hproposed] at hclamp hcheck hgrow ⊢
  refine growRowStore_of_sizes _ hclamp hgrow hcheck (by omega) ?_
  rw [rowsHeapBytes_of_fixed rfl]

/-- The loop leaves a table with room for the next key, as long as there is a slot. -/
theorem Keyed.fits {n : Nat} {s : Table} {rows : List (StoredRow keyLayout)}
    (h : Keyed n s rows) (hn : n < maxCapacity) :
    ∃ s', Growing keyLayout (keyCall n) s s' ∧ (keyCall n).needsGrow keyLayout s'.2 = false ∧
      s'.2.heapCapacity = 0 ∧ ∃ j ≤ 14, s'.2.rowCapacity = 256 * 2 ^ j := by
  have hcount := h.rowCount
  obtain ⟨j, hj, hcapacity⟩ := h.rowCapacity
  have hle := h.settled.represents.holds.count_le
  rcases Nat.lt_or_ge s.2.rowCount s.2.rowCapacity with hlt | hge
  · exact ⟨s, Growing.start, keyCall_needsGrow.2 hlt, h.heapCapacity, j, hj, hcapacity⟩
  · have hfull : s.2.rowCount = s.2.rowCapacity := Nat.le_antisymm hle hge
    obtain ⟨t, ht, hrows, hheap⟩ := keyStore_grows h.settled.toSized h.heapCapacity hj hcapacity
      hfull
    have hmax : maxCapacity = 4194304 := rfl
    have hj' : j + 1 ≤ 14 := by
      by_contra hmore
      obtain rfl : j = 14 := by omega
      omega
    have hslots : s.2.rowCount ≤ chooseCapacity t.rowCapacity := by
      have hpow : 2 ^ j ≤ 2 ^ (j + 1) := Nat.pow_le_pow_right (by decide) (by omega)
      rcases lt_chooseCapacity t.rowCapacity with hlt | hmore
      · omega
      · omega
    obtain ⟨aht, hgrown⟩ := (h.settled.represents.growTdc_iff ht).2 hslots
    have hneeds : (keyCall n).needsGrow keyLayout s.2 = true := by
      by_contra hno
      rw [Bool.not_eq_true, keyCall_needsGrow] at hno
      omega
    refine ⟨(aht, t), Growing.start.turn hneeds hgrown, ?_, hheap, j + 1, hj', hrows⟩
    rw [keyCall_needsGrow]
    show t.rowCount < t.rowCapacity
    rw [(growRowStore_grown ht).1.rowCount, hfull, hcapacity, hrows]
    have hpos : 0 < 2 ^ j := Nat.two_pow_pos j
    rw [Nat.pow_succ]
    omega

/-- **The next key.** -/
theorem Keyed.next {n : Nat} {s : Table} {rows : List (StoredRow keyLayout)}
    (h : Keyed n s rows) (hn : n < maxCapacity) : ∃ s' rows', Keyed (n + 1) s' rows' := by
  obtain ⟨s₁, hgrow, hfits, hheap, j, hj, hcapacity⟩ := h.fits hn
  obtain ⟨hsized, -⟩ := hgrow.sized h.settled.toSized
  have hcount := (h.settled.toSized.rowCount_eq hsized).trans h.rowCount
  have hrows := rows_of_fits hfits
  have hslots : s₁.2.rowCount < s₁.1.capacity := by
    rcases hsized.slots with hlt | hmax
    · omega
    · omega
  obtain ⟨⟨aht, t⟩, -, hok, -, hsame⟩ := hsized.enter_combine keyLayout_columnsFirst
    (keyCall_valid n) hfits hslots
  obtain ⟨rows', hrows', hgroups⟩ := hsized.represents.combineRow keyLayout_columnsFirst
    (keyStore_filled n) hok
  have hnew : key n ∉ rows.map Prod.fst := by
    rw [h.groups]
    intro hmem
    obtain ⟨m, hm, heq⟩ := List.mem_map.1 hmem
    rw [List.mem_range] at hm
    have hsame := key_injective (by omega) (by omega) heq
    omega
  obtain ⟨aht', hresize⟩ := hrows'.resize_ok
  refine ⟨(aht', t), rows', h.run.call (keyCall_valid n) trivial hgrow hfits hok hresize,
    hsized.settle hrows' hsame hresize, ?_, hsame.heapCapacity.trans hheap, j, hj,
    hsame.rowCapacity.trans hcapacity⟩
  rw [List.range_succ, List.map_append, ← h.groups]
  exact hgroups.resolve_left fun hold => hnew hold.1

theorem keyed (n : Nat) (hn : n ≤ maxCapacity) : ∃ s rows, Keyed n s rows := by
  induction n with
  | zero => exact keyed_zero
  | succ n ih =>
    obtain ⟨s, rows, h⟩ := ih (by omega)
    exact h.next (by omega)

/-! ## Room for every call -/

/-- **The directory is never full** in a run whose calls stay within the largest directory
wherever they make the row store grow. -/
theorem never_full {layout : AggregateLayout} {s : Table} {call : TableCall}
    (hfirst : ColumnsFirst layout)
    (h : TableRun layout (WithinMaxCapacity layout) s) (hvalid : call.Valid layout)
    (hwithin : WithinMaxCapacity layout s call) : NeverFull layout s call := by
  obtain ⟨rows, hsettled⟩ := h.settled hfirst
  refine ⟨?_, ?_, ?_⟩
  · intro s' hgrow hneeds owner t hstore
    obtain ⟨hsized, hcase⟩ := hgrow.sized hsettled.toSized
    refine (hsized.represents.growTdc_iff hstore).2 ?_
    have hbefore : call.needsGrow layout s.2 = true := by
      rcases hcase with rfl | hfirstTurn
      · exact hneeds
      · exact hfirstTurn
    have hroom := hwithin hbefore
    rw [hsettled.toSized.rowCount_eq hsized]
    obtain ⟨hgrown, -⟩ := growRowStore_grown hstore
    have hle := (growRowStore_holds hsized.represents.holds hstore).count_le
    rw [hgrown.rowCount, hsettled.toSized.rowCount_eq hsized] at hle
    rcases lt_chooseCapacity t.rowCapacity with hlt | hmax
    · omega
    · omega
  · intro s' hgrow hfits
    exact hsettled.slots_of_fits hvalid hwithin hgrow hfits
  · intro s' hgrow hfits
    have hslots := hsettled.slots_of_fits hvalid hwithin hgrow hfits
    have hsized := (hgrow.sized hsettled.toSized).1
    obtain ⟨s'', rows', hok, hrows', -⟩ := hsized.enter hfirst hvalid hfits hslots
    have hle := hrows'.indexes.length_le
    rw [List.length_map, ← hrows'.holds.rowCount] at hle
    exact ⟨s'', hok, hle, hrows'.resize_ok⟩

theorem never_full_keys : NeverFull keyLayout
    (init (chooseCapacity 256) (chooseCapacity_powerOfTwo 256),
      ⟨8, 256, 0, 0, 0, fun _ => 0⟩) (keyCall 0) := by
  have halloc : allocate 256 keyLayout.rowWidth
      (defaultHeapCapacity keyLayout.toTupleDataLayout 256) =
        .ok ⟨8, 256, 0, 0, 0, fun _ => 0⟩ := rfl
  refine never_full keyLayout_columnsFirst (TableRun.new halloc) (keyCall_valid 0) ?_
  intro hneeds
  have hfits : (keyCall 0).needsGrow keyLayout ⟨8, 256, 0, 0, 0, fun _ => 0⟩ = false := rfl
  exact absurd hneeds (by rw [hfits]; decide)

theorem Indexes.full_of_le {aht : AggregateHashTable} {groups : List (List Datum)}
    (h : Indexes aht groups) (hfull : aht.capacity ≤ groups.length) {k : List Datum}
    (hnew : k ∉ groups) {outcome : ProbeOutcome} (hends : ProbeEnds aht groups k outcome) :
    outcome = .full := by
  cases hends with
  | found hi => exact absurd (List.mem_of_getElem? hi) hnew
  | empty hempty hpassed =>
    have hle := (h.setEntry hpassed hempty).length_le
    rw [List.length_append, List.length_singleton] at hle
    change groups.length + 1 ≤ aht.capacity at hle
    omega
  | full hpassed => rfl

/-- **A run that fills its directory**: with `maxCapacity` keys the row store grows, and the
directory is chosen with as many slots as there are rows; the next key finds none. -/
theorem directory_full : ∃ s s' : Table, TableRun keyLayout (fun _ _ => True) s ∧
    (keyCall maxCapacity).Valid keyLayout ∧ Growing keyLayout (keyCall maxCapacity) s s' ∧
    (keyCall maxCapacity).needsGrow keyLayout s'.2 = false ∧
    s'.2.rowCount = s'.1.capacity ∧
    (keyCall maxCapacity).enter keyLayout s' =
      .error "pg_yaap: AggregateHashTableCombineRow AHT full (capacity=%u)" ∧
    ¬ NeverFull keyLayout s (keyCall maxCapacity) := by
  obtain ⟨s, rows, h⟩ := keyed maxCapacity (Nat.le_refl _)
  have hcount := h.rowCount
  obtain ⟨j, hj, hcapacity⟩ := h.rowCapacity
  have hle := h.settled.represents.holds.count_le
  have hmax : maxCapacity = 4194304 := rfl
  have hpow : 2 ^ j ≤ 2 ^ 14 := Nat.pow_le_pow_right (by decide) hj
  have hfull : s.2.rowCount = s.2.rowCapacity := by omega
  have hlast : j = 14 := by
    by_contra hne
    have hless : 2 ^ j ≤ 2 ^ 13 := Nat.pow_le_pow_right (by decide) (by omega)
    omega
  subst hlast
  obtain ⟨t, ht, hrows, hheap⟩ := keyStore_grows h.settled.toSized h.heapCapacity hj hcapacity
    hfull
  have hchosen : chooseCapacity t.rowCapacity = maxCapacity := by
    rw [hrows]
    decide
  obtain ⟨aht, hgrown⟩ := (h.settled.represents.growTdc_iff ht).2 (by omega)
  have hneeds : (keyCall maxCapacity).needsGrow keyLayout s.2 = true := by
    by_contra hno
    rw [Bool.not_eq_true, keyCall_needsGrow] at hno
    omega
  have hgrow : Growing keyLayout (keyCall maxCapacity) s (aht, t) :=
    Growing.start.turn hneeds hgrown
  obtain ⟨hsized, hslots⟩ := h.settled.toSized.grow hgrown
  have hcount' : t.rowCount = maxCapacity :=
    (h.settled.toSized.rowCount_eq hsized).trans hcount
  have hslots' : aht.capacity = maxCapacity := hslots.trans hchosen
  have hfits : (keyCall maxCapacity).needsGrow keyLayout t = false := by
    rw [keyCall_needsGrow, hcount', hrows]
    decide
  have hnew : key maxCapacity ∉ rows.map Prod.fst := by
    rw [h.groups]
    intro hmem
    obtain ⟨m, hm, heq⟩ := List.mem_map.1 hmem
    rw [List.mem_range] at hm
    have hsame := key_injective (by omega) (Nat.le_refl _) heq
    omega
  have hprobe := hsized.represents.indexes.full_of_le
    (by
      rw [List.length_map, ← hsized.represents.holds.rowCount]
      exact Nat.le_of_eq (hslots'.trans hcount'.symm)) hnew
    (hsized.represents.probe_ends keyLayout_columnsFirst (keyStore_filled maxCapacity))
  have herror : (keyCall maxCapacity).enter keyLayout (aht, t) =
      .error "pg_yaap: AggregateHashTableCombineRow AHT full (capacity=%u)" := by
    show combineRow keyLayout aht t (keyStore maxCapacity) 0 _ = _
    unfold combineRow
    rw [hprobe]
  refine ⟨s, (aht, t), h.run, keyCall_valid _, hgrow, hfits, hcount'.trans hslots'.symm, herror,
    fun hnever => ?_⟩
  obtain ⟨s'', hok, -⟩ := hnever.enter _ hgrow hfits
  rw [herror] at hok
  cases hok

end AggregateHashTable
end PgYaap
