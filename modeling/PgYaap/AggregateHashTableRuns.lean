import PgYaap.AggregateBatchRun

/-! # Runs of the hash table

A hash table and its row store as the aggregate leaves them: new, after batches, after rows of
other tables were combined into it, and after it was resized, rehashed and grown. Every one
stands for rows, so that a batch does what its rows do one at a time, up to the numbers of the
new rows, and reorganizing a table changes no row and no lookup. -/
namespace PgYaap

open ColumnSlots AggregateStates HashJoinBuild ProbedTables TupleDataCollection

namespace AggregateHashTable

/-! ## Reachable tables -/

/-- The steps that only reorganize a table and its row store. -/
inductive Reorganizes (layout : AggregateLayout) :
    AggregateHashTable × TupleDataCollection → AggregateHashTable × TupleDataCollection → Prop
  | grow {aht aht' : AggregateHashTable} {t t' : TupleDataCollection} {owner : String}
      {required : Nat} (hok : growTdc owner layout t required = .ok (aht', t')) :
      Reorganizes layout (aht, t) (aht', t')
  | resize {aht aht' : AggregateHashTable} {t : TupleDataCollection}
      (hok : resizeAhtForTdc layout aht t = .ok aht') : Reorganizes layout (aht, t) (aht', t)
  | rehash {aht aht' : AggregateHashTable} {t : TupleDataCollection}
      (hok : AggregateHashTable.rehash layout aht t = .ok aht') :
      Reorganizes layout (aht, t) (aht', t)

/-- **The tables that the aggregate can have**, with their row stores. -/
inductive Reachable (layout : AggregateLayout) : AggregateHashTable → TupleDataCollection → Prop
  | new {rowCapacity heapCapacity maxGroups : Nat} {t : TupleDataCollection}
      (hheap : heapCapacity < 2 ^ 32)
      (halloc : allocate rowCapacity layout.rowWidth heapCapacity = .ok t) :
      Reachable layout (init (chooseCapacity maxGroups) (chooseCapacity_powerOfTwo maxGroups)) t
  | batch {aht aht' : AggregateHashTable} {t t' : TupleDataCollection} {aarch64 : Bool}
      {chunk : DataChunk} {inputs : List BatchProbeInput} {results : List (Option BatchProbeResult)}
      (h : Reachable layout aht t)
      (hhash : ∀ input ∈ inputs, input.hash = hashGroup layout.descs chunk input.rowIdx)
      (hok : findOrInsertBatch aarch64 layout chunk aht t inputs = .ok (aht', t', results)) :
      Reachable layout aht' t'
  | update {aht : AggregateHashTable} {t t' : TupleDataCollection} {r : Nat}
      (h : Reachable layout aht t) (hr : r < t.rowCount)
      (honly : OnlyStates t t' r layout.aggregates) : Reachable layout aht t'
  | combine {aht aht' srcAht : AggregateHashTable} {t t' src : TupleDataCollection} {srcRow : Nat}
      (h : Reachable layout aht t) (hsrc : Reachable layout srcAht src)
      (hrow : srcRow < src.rowCount)
      (hok : combineRow layout aht t src srcRow
        (hashGroupRowAt layout.toTupleDataLayout src srcRow) = .ok (aht', t')) :
      Reachable layout aht' t'
  | reorganize {aht aht' : AggregateHashTable} {t t' : TupleDataCollection}
      (h : Reachable layout aht t) (hstep : Reorganizes layout (aht, t) (aht', t')) :
      Reachable layout aht' t'

section Runs

variable {layout : AggregateLayout} {aht aht' : AggregateHashTable}
  {t t' : TupleDataCollection} {rows rows' : List (StoredRow layout)}

theorem Represents.reorganize (h : Represents layout aht t rows)
    (hstep : Reorganizes layout (aht, t) (aht', t')) : Represents layout aht' t' rows := by
  cases hstep with
  | grow hok => exact h.grow hok
  | resize hok => exact h.resize hok
  | rehash hok => exact h.rehash hok

/-- The rows after a batch. -/
theorem Batch.Working.represents {b : Batch layout} {st : BatchState} {added : List (List Datum)}
    (h : b.Working st added) : Represents layout st.aht st.tdc (b.rowsWith added) := by
  refine ⟨h.holds, ?_⟩
  rw [Batch.rowsWith_fst]
  exact h.indexes

theorem Represents.batch (h : Represents layout aht t rows) {aarch64 : Bool} {chunk : DataChunk}
    {inputs : List BatchProbeInput} {results : List (Option BatchProbeResult)}
    (hhash : ∀ input ∈ inputs, input.hash = hashGroup layout.descs chunk input.rowIdx)
    (hok : findOrInsertBatch aarch64 layout chunk aht t inputs = .ok (aht', t', results)) :
    ∃ rows', Represents layout aht' t' rows' := by
  rcases Batch.findOrInsertBatch_spec (b := ⟨chunk, inputs, aht, t, rows, h, hhash⟩) aarch64 with
    ⟨e, he, -⟩ | ⟨out, st, added, hout, hends⟩
  · rw [hok] at he
    cases he
  · rw [hok] at hout
    have heq := (Except.ok.inj hout).trans hends.out_eq
    obtain ⟨rfl, heq'⟩ := Prod.mk.inj heq
    obtain ⟨rfl, -⟩ := Prod.mk.inj heq'
    exact ⟨_, hends.working.represents⟩

/-- **A reachable table stands for rows.** -/
theorem Reachable.represents (hfirst : ColumnsFirst layout) (h : Reachable layout aht t) :
    ∃ rows, Represents layout aht t rows := by
  induction h with
  | new hheap halloc => exact ⟨[], allocate_holdsRows hheap halloc, indexes_nil fun _ => rfl⟩
  | batch h hhash hok ih =>
    obtain ⟨rows, hrows⟩ := ih
    exact hrows.batch hhash hok
  | update h hr honly ih =>
    obtain ⟨rows, hrows⟩ := ih
    obtain ⟨rows', hrows', -⟩ := hrows.onlyStates hr honly
    exact ⟨rows', hrows'⟩
  | combine h hsrc hrow hok ih ihsrc =>
    obtain ⟨rows, hrows⟩ := ih
    obtain ⟨srcRows, hsrcRows⟩ := ihsrc
    obtain ⟨row, -, hfilled⟩ := hsrcRows.row hrow
    obtain ⟨rows', hrows', -⟩ := hrows.combineRow hfirst hfilled hok
    exact ⟨rows', hrows'⟩
  | reorganize h hstep ih =>
    obtain ⟨rows, hrows⟩ := ih
    exact ⟨rows, hrows.reorganize hstep⟩

/-! ## Rows by their values -/

/-- A row of the table is what the row store reads back. -/
theorem Represents.getElem?_eq (h : Represents layout aht t rows) {r : Nat}
    (hr : r < t.rowCount) :
    rows[r]? = some (t.decodeRow layout.toTupleDataLayout r, t.states layout r) := by
  obtain ⟨row, hrow, hfilled⟩ := h.row hr
  rw [hrow, hfilled.decodeRow, hfilled.states]

theorem Represents.group_iff (h : Represents layout aht t rows) {r : Nat} {k : List Datum} :
    (rows.map Prod.fst)[r]? = some k ↔
      r < t.rowCount ∧ t.decodeRow layout.toTupleDataLayout r = k := by
  rw [List.getElem?_map]
  by_cases hr : r < t.rowCount
  · rw [h.getElem?_eq hr, Option.map_some, Option.some.injEq]
    exact ⟨fun hk => ⟨hr, hk⟩, fun hk => hk.2⟩
  · have hlength := h.holds.rowCount
    rw [List.getElem?_eq_none (by omega)]
    exact ⟨fun hk => absurd hk.symm (Option.some_ne_none _), fun hk => absurd hk.1 hr⟩

theorem Represents.mem_iff (h : Represents layout aht t rows) {k : List Datum} :
    k ∈ rows.map Prod.fst ↔ ∃ r < t.rowCount, t.decodeRow layout.toTupleDataLayout r = k := by
  rw [List.mem_iff_getElem?]
  exact exists_congr fun r => h.group_iff

/-- No two rows have the same group. -/
theorem Represents.index_eq (h : Represents layout aht t rows) {r r' : Nat} (hr : r < t.rowCount)
    (hr' : r' < t.rowCount) (heq : t.decodeRow layout.toTupleDataLayout r =
      t.decodeRow layout.toTupleDataLayout r') : r = r' :=
  h.indexes.index_eq (h.group_iff.2 ⟨hr, heq⟩) (h.group_iff.2 ⟨hr', rfl⟩)

/-- Every row has one entry in the directory. -/
theorem Represents.entered (h : Represents layout aht t rows) {r : Nat} (hr : r < t.rowCount) :
    ∃! slot, ∃ salt, aht.entries slot = some (salt, r) := by
  obtain ⟨n, hslot, -⟩ := h.indexes.placed r _ (h.group_iff.2 ⟨hr, rfl⟩)
  refine ⟨_, ⟨_, hslot⟩, fun slot hother => ?_⟩
  obtain ⟨salt, hsalt⟩ := hother
  exact h.indexes.once _ _ _ _ r hsalt hslot

/-! ## Reorganizing -/

/-- A lookup with a chunk row. -/
def lookupGroup (layout : AggregateLayout) (aht : AggregateHashTable) (t : TupleDataCollection)
    (row : AggregateStates.ChunkRow) : Option Nat :=
  match aht.probe (hashGroup layout.descs row.1 row.2)
    (fun r => matchGroupAt layout.toTupleDataLayout t r row) with
  | .found rowIdx => some rowIdx
  | .empty _ | .full => none

theorem lookupGroup_eq_some {row : AggregateStates.ChunkRow} {i : Nat} :
    lookupGroup layout aht t row = some i ↔
      aht.probe (hashGroup layout.descs row.1 row.2)
        (fun r => matchGroupAt layout.toTupleDataLayout t r row) = .found i := by
  unfold lookupGroup
  cases aht.probe _ _ with
  | found j => exact ⟨fun h => congrArg _ (Option.some.inj h), fun h => by cases h; rfl⟩
  | empty slot => exact ⟨fun h => absurd h.symm (Option.some_ne_none _), fun h => by cases h⟩
  | full => exact ⟨fun h => absurd h.symm (Option.some_ne_none _), fun h => by cases h⟩

/-- **A lookup with a chunk row** finds the row of its group, and nothing where there is none. -/
theorem Represents.lookupGroup_eq_some_iff (h : Represents layout aht t rows)
    {row : AggregateStates.ChunkRow} {i : Nat} : lookupGroup layout aht t row = some i ↔
      i < t.rowCount ∧
        t.decodeRow layout.toTupleDataLayout i = row.1.groupColumns layout.descs row.2 := by
  rw [lookupGroup_eq_some, ← h.group_iff, hashGroup_eq]
  refine (AggregateHashTable.probe_ends h.indexes fun r hr => ?_).found_iff h.indexes
  rw [List.length_map] at hr
  have hfilled := h.holds.row r _ (List.getElem?_eq_getElem hr)
  rw [hfilled.match_iff row, List.getElem?_map, List.getElem?_eq_getElem hr, Option.map_some,
    Option.some.injEq]

/-- **A lookup with a stored row** likewise. -/
theorem Represents.lookup_iff (h : Represents layout aht t rows) (hfirst : ColumnsFirst layout)
    {srcAht : AggregateHashTable} {src : TupleDataCollection} {srcRows : List (StoredRow layout)}
    (hsrc : Represents layout srcAht src srcRows) {s : Nat} (hs : s < src.rowCount) {i : Nat} :
    lookup layout aht t src s = some i ↔ i < t.rowCount ∧
      t.decodeRow layout.toTupleDataLayout i = src.decodeRow layout.toTupleDataLayout s := by
  obtain ⟨row, -, hfilled⟩ := hsrc.row hs
  rw [h.lookup_eq_some_iff hfirst hfilled, h.group_iff, hfilled.decodeRow]

/-- The rows behind any number of steps. -/
theorem Represents.reorganized {x y : AggregateHashTable × TupleDataCollection}
    (hsteps : Relation.ReflTransGen (Reorganizes layout) x y)
    (h : Represents layout x.1 x.2 rows) : Represents layout y.1 y.2 rows := by
  induction hsteps with
  | refl => exact h
  | tail _ hstep ih => exact ih.reorganize hstep

/-- **Growing, resizing and rehashing change no row and no lookup.** Every row keeps its number,
its group columns and its states; a lookup, with a row of any reachable table or with a chunk
row, finds what it found before, which is the row of its group. -/
theorem reorganized_keeps (hfirst : ColumnsFirst layout) (h : Reachable layout aht t)
    (hsteps : Relation.ReflTransGen (Reorganizes layout) (aht, t) (aht', t')) :
    t'.rowCount = t.rowCount ∧
    (∀ r < t.rowCount,
      t'.decodeRow layout.toTupleDataLayout r = t.decodeRow layout.toTupleDataLayout r ∧
      t'.states layout r = t.states layout r) ∧
    (∀ (srcAht : AggregateHashTable) (src : TupleDataCollection), Reachable layout srcAht src →
      ∀ s < src.rowCount, lookup layout aht' t' src s = lookup layout aht t src s ∧
        ∀ i, lookup layout aht' t' src s = some i ↔ i < t.rowCount ∧
          t.decodeRow layout.toTupleDataLayout i = src.decodeRow layout.toTupleDataLayout s) ∧
    ∀ row : AggregateStates.ChunkRow,
      lookupGroup layout aht' t' row = lookupGroup layout aht t row ∧
      ∀ i, lookupGroup layout aht' t' row = some i ↔ i < t.rowCount ∧
        t.decodeRow layout.toTupleDataLayout i = row.1.groupColumns layout.descs row.2 := by
  obtain ⟨rows, hrows⟩ := h.represents hfirst
  have hrows' : Represents layout aht' t' rows := Represents.reorganized hsteps hrows
  have hcount : t'.rowCount = t.rowCount := hrows'.holds.rowCount.trans hrows.holds.rowCount.symm
  have hrow : ∀ r < t.rowCount,
      (t'.decodeRow layout.toTupleDataLayout r, t'.states layout r) =
        (t.decodeRow layout.toTupleDataLayout r, t.states layout r) := by
    intro r hr
    have hnew := hrows'.getElem?_eq (hcount.symm ▸ hr)
    rw [hrows.getElem?_eq hr] at hnew
    exact (Option.some.inj hnew).symm
  refine ⟨hcount, fun r hr => ⟨?_, ?_⟩, fun srcAht src hsrc s hs => ?_, fun row => ?_⟩
  · exact (Prod.mk.inj (hrow r hr)).1
  · exact (Prod.mk.inj (hrow r hr)).2
  · obtain ⟨srcRows, hsrcRows⟩ := hsrc.represents hfirst
    have hbefore := fun i => @Represents.lookup_iff _ _ _ _ hrows hfirst _ _ _ hsrcRows s hs i
    have hafter := fun i => @Represents.lookup_iff _ _ _ _ hrows' hfirst _ _ _ hsrcRows s hs i
    have hsame : ∀ i, lookup layout aht' t' src s = some i ↔ lookup layout aht t src s = some i := by
      intro i
      rw [hbefore, hafter, ← hrows.group_iff, ← hrows'.group_iff]
    exact ⟨Option.ext hsame, fun i => (hsame i).trans (hbefore i)⟩
  · have hsame : ∀ i, lookupGroup layout aht' t' row = some i ↔
        lookupGroup layout aht t row = some i := by
      intro i
      rw [hrows.lookupGroup_eq_some_iff, hrows'.lookupGroup_eq_some_iff, ← hrows.group_iff,
        ← hrows'.group_iff]
    exact ⟨Option.ext hsame, fun i => (hsame i).trans hrows.lookupGroup_eq_some_iff⟩

/-! ## A table of averages -/

theorem averageLayout_columnsFirst : ColumnsFirst averageLayout := by
  unfold ColumnsFirst
  decide

/-- A new table for `averageLayout`. -/
def averageTable : AggregateHashTable := init (chooseCapacity 4) (chooseCapacity_powerOfTwo 4)

theorem averageTable_reachable : Reachable averageLayout averageTable (averageStore 0) :=
  @Reachable.new averageLayout 4 0 4 _ (by decide) rfl

/-- A batch that has one group `n` times. -/
def averageInputs (n : Nat) : List BatchProbeInput :=
  List.replicate n ⟨0, hashGroup averageLayout.descs (averageRow 7).1 0⟩

theorem averageInputs_hash (n : Nat) : ∀ input ∈ averageInputs n,
    input.hash = hashGroup averageLayout.descs (averageRow 7).1 input.rowIdx := by
  intro input hinput
  rw [List.eq_of_mem_replicate hinput]

/-- The new table after the batch. -/
def averageBatch (n : Nat) : Except String BatchOutput :=
  findOrInsertBatch true averageLayout (averageRow 7).1 averageTable (averageStore 0)
    (averageInputs n)

theorem eq_ok_of_isOk {α : Type} {x : Except String α} (h : x.isOk = true) : ∃ a, x = .ok a := by
  cases x with
  | ok a => exact ⟨a, rfl⟩
  | error e => cases h

theorem averageBatch_reachable {n : Nat} {out : BatchOutput} (hok : averageBatch n = .ok out) :
    Reachable averageLayout out.1 out.2.1 :=
  averageTable_reachable.batch (averageInputs_hash n) hok

theorem reorganized_keeps_averageBatch : ∃ out aht' t', averageBatch 1 = .ok out ∧
    growTdc "pg_yaap: hash aggregate" averageLayout out.2.1 16 = .ok (aht', t') ∧
    t'.rowCount = out.2.1.rowCount := by
  have hok : ((averageBatch 1).bind fun out =>
      growTdc "pg_yaap: hash aggregate" averageLayout out.2.1 16).isOk = true := by decide +kernel
  obtain ⟨⟨aht', t'⟩, hgrown⟩ := eq_ok_of_isOk hok
  obtain ⟨out, hout, hgrow⟩ := bind_eq_ok hgrown
  have hsteps : Relation.ReflTransGen (Reorganizes averageLayout) (out.1, out.2.1) (aht', t') :=
    Relation.ReflTransGen.single (Reorganizes.grow hgrow)
  have hkept := reorganized_keeps averageLayout_columnsFirst (averageBatch_reachable hout) hsteps
  exact ⟨out, aht', t', hout, hgrow, hkept.1⟩

end Runs
end AggregateHashTable
end PgYaap
