import PgYaap.AggregateDeltas
import PgYaap.AggregateRoundTrip
import PgYaap.HeapColumns
import PgYaap.SortKeys

/-! # Sources of sorted rows

A sort keeps its rows where they are and arranges their indices. Its source then gathers the rows
in the order of the indices, up to a chunk full at a call, until a call has no rows. What comes out
are the chunk rows that were stored, in that order and each once, with all their values and without
null flags. -/
namespace PgYaap
namespace SortedSources

open AggregateStates SortKeys TupleDataCollection
open NullFlags hiding gather

/-! ## Gathering with the limit for strings -/

/-- One turn of the loop of `Gather` over the columns. -/
def gatherColumn (t : TupleDataCollection) (rowIdx : Nat) (col : TdcPlacedColumn) :
    Except String CellWrite :=
  match t.decodeColumn rowIdx col with
  | .stringRef bytes =>
    (HeapColumns.storeStringBytes bytes).map fun v => ⟨col.srcColIdx, some v, none⟩
  | v => .ok ⟨col.srcColIdx, some v, none⟩

/-- `Gather`, which a long string makes fail. -/
def gatherRow (layout : AggregateLayout) (t : TupleDataCollection) (rowIdx : Nat) :
    Except String (List CellWrite) := do
  let columns ← layout.columns.mapM (gatherColumn t rowIdx)
  let aggregates ← gatherAggregates layout.columns.length (t.states layout rowIdx)
  return columns ++ aggregates

/-! ## Chunks of the source -/

section Source

variable (gatherRow : Nat → Except String (List CellWrite)) (indices : List Nat)

/-- One turn of the loop of `GetData`: a stored row becomes the next row of the chunk. -/
def emitRow (out : DataChunk) (rowIdx : Nat) : Except String DataChunk := do
  let writes ← gatherRow rowIdx
  return { writes.foldl (writeCell out.count) out with count := out.count + 1 }

/-- One call of `GetData`: the chunk, and the cursor afterwards. -/
def getData (cursor : Nat) (out : DataChunk) : Except String (DataChunk × Nat) := do
  let picks := (indices.drop cursor).take pipelineDefaultChunkSize
  let out ← picks.foldlM (emitRow gatherRow) (reset out)
  return (out, cursor + picks.length)

/-- **Draining a source**: calls until one has no rows, each with a chunk that was used before. -/
inductive Drains : Nat → List DataChunk → Prop
  | finished {cursor cursor' : Nat} {out chunk : DataChunk}
      (h : getData gatherRow indices cursor out = .ok (chunk, cursor')) (hcount : chunk.count = 0) :
      Drains cursor []
  | haveMoreOutput {cursor cursor' : Nat} {out chunk : DataChunk} {chunks : List DataChunk}
      (h : getData gatherRow indices cursor out = .ok (chunk, cursor')) (hcount : 0 < chunk.count)
      (hrest : Drains cursor' chunks) : Drains cursor (chunk :: chunks)

end Source

/-- **What a sort emits**: indices arranged by `less`, and the chunks of its source. -/
def Emits (less : Nat → Nat → Bool) (gatherRow : Nat → Except String (List CellWrite))
    (rowCount : Nat) (chunks : List DataChunk) : Prop :=
  ∃ indices, BoundedSelection.Sorts less (List.range rowCount) indices ∧
    Drains gatherRow indices 0 chunks

/-- The rows of chunks, as SQL sees them. -/
def emittedRows (places : List TdcColumnDesc) (chunks : List DataChunk) :
    List (List (Option Datum)) := (chunks.flatMap chunkRows).map (sqlRow places)

/-! ## Gathering succeeds with the values of the row -/

section Gather

variable {layout : AggregateLayout} {t : TupleDataCollection} {rowIdx : Nat}
  {writes : List CellWrite}

theorem gatherColumn_eq_ok {col : TdcPlacedColumn} {w : CellWrite}
    (h : gatherColumn t rowIdx col = .ok w) :
    w = ⟨col.srcColIdx, some (t.decodeColumn rowIdx col), none⟩ := by
  unfold gatherColumn at h
  cases hv : t.decodeColumn rowIdx col with
  | stringRef bytes =>
    rw [hv] at h
    dsimp only [HeapColumns.storeStringBytes] at h
    split at h
    · cases h
    · exact (Except.ok.inj h).symm
  | int32 v | int64 v | double v =>
    rw [hv] at h
    exact (Except.ok.inj h).symm

/-- What is gathered is what `gather` gives. -/
theorem gatherRow_eq_ok (h : gatherRow layout t rowIdx = .ok writes) :
    gather layout t rowIdx = .ok writes := by
  unfold gatherRow at h
  obtain ⟨columns, hcolumns, h⟩ := HashJoinBuild.bind_eq_ok h
  obtain ⟨aggregates, haggregates, h⟩ := HashJoinBuild.bind_eq_ok h
  have hall : layout.columns.mapM (gatherColumn t rowIdx) =
      .ok (NullFlags.gather layout.toTupleDataLayout t rowIdx) := by
    refine mapM_eq_ok fun col hcol => ?_
    obtain ⟨w, hw⟩ := exists_of_mapM_eq_ok hcolumns col hcol
    rw [hw, gatherColumn_eq_ok hw]
  obtain rfl := Except.ok.inj (hcolumns.symm.trans hall)
  unfold gather
  rw [haggregates]
  exact h

/-- Strings that a chunk can take. -/
def StringsFit (row : ChunkRow) (columns : List TdcPlacedColumn) : Prop :=
  ∀ col ∈ columns, ∀ bytes, row.1.get col.kind col.srcColIdx row.2 = .stringRef bytes →
    bytes.length ≤ 65536

theorem gatherRow_of_fits {row : ChunkRow} (hfit : StringsFit row layout.columns)
    (hcols : ∀ col ∈ layout.columns,
      t.decodeColumn rowIdx col = row.1.get col.kind col.srcColIdx row.2)
    (h : gather layout t rowIdx = .ok writes) : gatherRow layout t rowIdx = .ok writes := by
  unfold gather at h
  have hall : layout.columns.mapM (gatherColumn t rowIdx) =
      .ok (NullFlags.gather layout.toTupleDataLayout t rowIdx) := by
    refine mapM_eq_ok fun col hcol => ?_
    have hbytes := hfit col hcol
    rw [← hcols col hcol] at hbytes
    unfold gatherColumn
    cases hv : t.decodeColumn rowIdx col with
    | stringRef bytes =>
      dsimp only [HeapColumns.storeStringBytes]
      rw [if_neg (Nat.not_lt.2 (hbytes bytes hv))]
      rfl
    | int32 v | int64 v | double v => rfl
  unfold gatherRow
  rw [hall]
  exact h

end Gather

/-! ## The rows that come out -/

section Emitted

variable {gatherRow : Nat → Except String (List CellWrite)} {places : List TdcColumnDesc}
  {rowFor : Nat → ChunkRow} {picks indices : List Nat} {cursor cursor' : Nat}
  {out chunk : DataChunk} {chunks : List DataChunk}

theorem nulls_foldl {writes : List CellWrite} (hnone : ∀ w ∈ writes, w.flag = none) (row s r : Nat) :
    (writes.foldl (writeCell row) chunk).nulls s r = chunk.nulls s r := by
  induction writes generalizing chunk with
  | nil => rfl
  | cons w writes ih =>
    rw [List.foldl_cons, ih fun w' hw' => hnone w' (List.mem_cons_of_mem _ hw'), nulls_writeCell,
      hnone w List.mem_cons_self]

/-- A row that the source emits, without null flags and with the values of a chunk row. -/
def EmitsAs (places : List TdcColumnDesc) (chunk : DataChunk) (i : Nat) (row : ChunkRow) : Prop :=
  ∀ place ∈ places, chunk.nulls place.srcColIdx i = 0 ∧
    chunk.get place.kind place.srcColIdx i = row.1.get place.kind place.srcColIdx row.2

/-- **The rows of a chunk** are those of its picks. -/
theorem emitRows_spec (hrows : ∀ i ∈ picks, ∀ writes, gatherRow i = .ok writes →
      Carries places writes (rowFor i))
    (hok : picks.foldlM (emitRow gatherRow) (reset out) = .ok chunk) :
    chunk.count = picks.length ∧ Flat chunk ∧ (∀ s r, chunk.nulls s r = 0) ∧
      ∀ k i, picks[k]? = some i → EmitsAs places chunk k (rowFor i) := by
  induction picks using List.reverseRecOn generalizing chunk with
  | nil =>
    obtain rfl := Except.ok.inj hok
    exact ⟨rfl, Flat.reset out, fun _ _ => rfl, fun _ _ h => by cases h⟩
  | append_singleton picks pick ih =>
    rw [List.foldlM_append] at hok
    obtain ⟨mid, hmid, hok⟩ := HashJoinBuild.bind_eq_ok hok
    rw [List.foldlM_cons] at hok
    obtain ⟨last, hlast, hok⟩ := HashJoinBuild.bind_eq_ok hok
    obtain rfl := Except.ok.inj hok
    obtain ⟨hcount, hflat, hnulls, hsofar⟩ :=
      ih (fun i hi => hrows i (List.mem_append_left _ hi)) hmid
    unfold emitRow at hlast
    obtain ⟨writes, hwrites, hlast⟩ := HashJoinBuild.bind_eq_ok hlast
    obtain rfl := Except.ok.inj hlast
    have hcarries := hrows pick (List.mem_append_right _ (List.mem_singleton_self _)) _ hwrites
    have hnone : ∀ w ∈ writes, w.flag = none := fun w hw => (hcarries.origin w hw).1
    have hnext : Flat (writes.foldl (writeCell mid.count) mid) := hflat.foldl
    refine ⟨?_, ⟨hnext.int32, hnext.int64, hnext.double, hnext.string⟩, ?_, ?_⟩
    · rw [List.length_append, List.length_singleton, ← hcount]
    · intro s r
      exact (nulls_foldl hnone mid.count s r).trans (hnulls s r)
    · intro k i hk place hplace
      refine ⟨(nulls_foldl hnone mid.count _ _).trans (hnulls _ _), ?_⟩
      by_cases hlt : k < picks.length
      · -- the rows so far are not touched any more
        rw [List.getElem?_append_left hlt] at hk
        have hframe := @Flat.foldl_frame _ mid.count place.srcColIdx k place.kind writes hflat
          (Or.inl (by omega))
        exact hframe.1.trans (hsofar k i hk place hplace).2
      · have hle := (List.getElem?_eq_some_iff.1 hk).1
        rw [List.length_append, List.length_singleton] at hle
        obtain rfl : k = picks.length := by omega
        rw [List.getElem?_concat_length, Option.some.injEq] at hk
        subst hk
        rw [← hcount]
        exact hcarries.get hflat hplace

/-- The rows of the chunk of one call, and where the cursor is then. -/
theorem getData_spec (hrows : ∀ i ∈ indices, ∀ writes, gatherRow i = .ok writes →
      Carries places writes (rowFor i))
    (hok : getData gatherRow indices cursor out = .ok (chunk, cursor')) :
    chunk.count = ((indices.drop cursor).take pipelineDefaultChunkSize).length ∧
      cursor' = cursor + chunk.count ∧ ∀ k i,
        ((indices.drop cursor).take pipelineDefaultChunkSize)[k]? = some i →
          EmitsAs places chunk k (rowFor i) := by
  unfold getData at hok
  obtain ⟨out', hout, hpure⟩ := HashJoinBuild.bind_eq_ok hok
  obtain ⟨rfl, rfl⟩ := Prod.mk.inj (Except.ok.inj hpure)
  have hpicks : ∀ i ∈ (indices.drop cursor).take pipelineDefaultChunkSize, i ∈ indices :=
    fun i hi => List.mem_of_mem_drop (List.mem_of_mem_take hi)
  obtain ⟨hcount, -, -, hall⟩ := emitRows_spec (fun i hi => hrows i (hpicks i hi)) hout
  exact ⟨hcount, by rw [hcount], hall⟩

/-- The values of a chunk row, none of them NULL. -/
def valuesRow (places : List TdcColumnDesc) (row : ChunkRow) : List (Option Datum) :=
  places.map fun place => some (row.1.get place.kind place.srcColIdx row.2)

theorem sqlRow_of_emitsAs {i : Nat} {row : ChunkRow} (h : EmitsAs places chunk i row) :
    sqlRow places (chunk, i) = valuesRow places row := by
  refine List.map_congr_left fun place hplace => ?_
  obtain ⟨hnull, hget⟩ := h place hplace
  show (if chunk.nulls place.srcColIdx i = 0 then some (chunk.get _ _ i) else none) = _
  rw [if_pos hnull, hget]

theorem emittedRows_chunk (hcount : chunk.count = picks.length)
    (h : ∀ k i, picks[k]? = some i → EmitsAs places chunk k (rowFor i)) :
    (chunkRows chunk).map (sqlRow places) = picks.map fun i => valuesRow places (rowFor i) := by
  unfold chunkRows
  rw [List.map_map, hcount]
  refine List.ext_getElem (by simp) fun k hk hk' => ?_
  rw [List.length_map] at hk'
  rw [List.getElem_map, List.getElem_map, List.getElem_range]
  exact sqlRow_of_emitsAs (h k _ (List.getElem?_eq_getElem hk'))

/-- **A drained source** has emitted the rows of the indices, in their order. -/
theorem Drains.emitted (h : Drains gatherRow indices cursor chunks)
    (hrows : ∀ i ∈ indices, ∀ writes, gatherRow i = .ok writes →
      Carries places writes (rowFor i)) :
    emittedRows places chunks =
      (indices.drop cursor).map fun i => valuesRow places (rowFor i) := by
  induction h with
  | @finished cursor cursor' out chunk hok hzero =>
    obtain ⟨hcount, -, -⟩ := getData_spec hrows hok
    rw [hzero, List.length_take] at hcount
    have hnone : (indices.drop cursor).length = 0 := by
      unfold pipelineDefaultChunkSize at hcount
      omega
    rw [List.eq_nil_of_length_eq_zero hnone]
    rfl
  | @haveMoreOutput cursor cursor' out chunk chunks hok hpos _ ih =>
    obtain ⟨hcount, hcursor, hall⟩ := getData_spec hrows hok
    have hrest : (indices.drop cursor).drop pipelineDefaultChunkSize = indices.drop cursor' := by
      rw [List.drop_drop, hcursor, hcount, List.length_take]
      rcases Nat.le_total pipelineDefaultChunkSize (indices.drop cursor).length with hle | hle
      · rw [Nat.min_eq_left hle]
      · rw [Nat.min_eq_right hle, List.length_drop]
        rw [List.length_drop] at hle
        rw [List.drop_eq_nil_of_le (by omega), List.drop_eq_nil_of_le (by omega)]
    show ((chunkRows chunk ++ chunks.flatMap chunkRows).map (sqlRow places)) = _
    rw [List.map_append, emittedRows_chunk hcount hall]
    refine (congrArg _ ih).trans ?_
    rw [← List.map_append, ← hrest, List.take_append_drop]

/-- **A source can be drained** where every row can be gathered. -/
theorem exists_drains (hok : ∀ i ∈ indices, ∃ writes, gatherRow i = .ok writes)
    (out : DataChunk) (cursor : Nat) : ∃ chunks, Drains gatherRow indices cursor chunks := by
  have hpicks : ∀ picks : List Nat, (∀ i ∈ picks, i ∈ indices) → ∀ out,
      ∃ chunk, picks.foldlM (emitRow gatherRow) out = .ok chunk ∧
        chunk.count = out.count + picks.length := by
    intro picks
    induction picks with
    | nil => exact fun _ out => ⟨out, rfl, rfl⟩
    | cons i picks ih =>
      intro hmem out
      obtain ⟨writes, hwrites⟩ := hok i (hmem i List.mem_cons_self)
      obtain ⟨chunk, hchunk, hcount⟩ := ih (fun j hj => hmem j (List.mem_cons_of_mem _ hj))
        { writes.foldl (writeCell out.count) out with count := out.count + 1 }
      refine ⟨chunk, ?_, ?_⟩
      · rw [List.foldlM_cons, emitRow, hwrites]
        exact hchunk
      · rw [hcount, List.length_cons]
        dsimp only
        omega
  have hcall : ∀ cursor, ∃ chunk, getData gatherRow indices cursor out = .ok
      (chunk, cursor + ((indices.drop cursor).take pipelineDefaultChunkSize).length) ∧
      chunk.count = ((indices.drop cursor).take pipelineDefaultChunkSize).length := by
    intro cursor
    obtain ⟨chunk, hchunk, hcount⟩ := hpicks ((indices.drop cursor).take pipelineDefaultChunkSize)
      (fun i hi => List.mem_of_mem_drop (List.mem_of_mem_take hi)) (reset out)
    refine ⟨chunk, ?_, hcount.trans (Nat.zero_add _)⟩
    unfold getData
    dsimp only
    rw [hchunk]
    rfl
  -- every call but the last one brings the cursor nearer to the end
  have hall : ∀ n cursor, indices.length - cursor ≤ n →
      ∃ chunks, Drains gatherRow indices cursor chunks := by
    intro n
    induction n with
    | zero =>
      intro cursor hn
      obtain ⟨chunk, hchunk, hcount⟩ := hcall cursor
      refine ⟨[], .finished hchunk (hcount.trans ?_)⟩
      rw [List.drop_eq_nil_of_le (by omega)]
      rfl
    | succ n ih =>
      intro cursor hn
      obtain ⟨chunk, hchunk, hcount⟩ := hcall cursor
      rcases Nat.eq_zero_or_pos chunk.count with hzero | hpos
      · exact ⟨[], .finished hchunk hzero⟩
      · obtain ⟨chunks, hchunks⟩ := ih
          (cursor + ((indices.drop cursor).take pipelineDefaultChunkSize).length) (by omega)
        exact ⟨chunk :: chunks, .haveMoreOutput hchunk hpos hchunks⟩
  exact hall _ cursor (Nat.le_refl _)

end Emitted

/-! ## Sorted rows -/

section Sorted

open BoundedSelection

variable {gatherRow : Nat → Except String (List CellWrite)} {places : List TdcColumnDesc}
  {keys : List SortKeyDesc} {less : Nat → Nat → Bool} {rows : List ChunkRow}
  {chunks : List DataChunk}

/-- The rows of a list by their indices, as a function on all numbers. -/
theorem exists_rowFor (rows : List ChunkRow) :
    ∃ rowFor : Nat → ChunkRow, ∀ i row, rows[i]? = some row → rowFor i = row :=
  ⟨fun i => rows[i]?.getD (HashJoinProbe.int32Chunk 0 0, 0),
    fun _ _ h => congrArg (Option.getD · _) h⟩

theorem map_range_rowFor {rowFor : Nat → ChunkRow}
    (hrowFor : ∀ i row, rows[i]? = some row → rowFor i = row) :
    (List.range rows.length).map rowFor = rows := by
  refine List.ext_getElem (by simp) fun i hi hi' => ?_
  rw [List.getElem_map, List.getElem_range]
  exact hrowFor i _ (List.getElem?_eq_getElem hi')

/-- Indices are compared as the rows they stand for. -/
def ComparesRows (less : Nat → Nat → Bool) (keys : List SortKeyDesc) (places : List TdcColumnDesc)
    (rows : List ChunkRow) : Prop :=
  ∀ i j row row', rows[i]? = some row → rows[j]? = some row' →
    (less i j = true ↔ compareChunkRows keys places row row' = .lt)

theorem ComparesRows.rowFor (h : ComparesRows less keys places rows) {rowFor : Nat → ChunkRow}
    (hrowFor : ∀ i row, rows[i]? = some row → rowFor i = row) :
    ∀ i ∈ List.range rows.length, ∀ j ∈ List.range rows.length,
      less i j = true ↔ compareChunkRows keys places (rowFor i) (rowFor j) = .lt := by
  intro i hi j hj
  have hiRow := List.getElem?_eq_getElem (List.mem_range.1 hi)
  have hjRow := List.getElem?_eq_getElem (List.mem_range.1 hj)
  rw [hrowFor i _ hiRow, hrowFor j _ hjRow]
  exact h i j _ _ hiRow hjRow

/-- **What a sort emits** are its rows, each once and in order. -/
theorem Emits.sorted (h : Emits less gatherRow rows.length chunks)
    (hless : ComparesRows less keys places rows)
    (hcarries : ∀ i row, rows[i]? = some row → ∀ writes, gatherRow i = .ok writes →
      Carries places writes row)
    (hnull : ∀ row ∈ rows, ∀ place ∈ places, row.1.nulls place.srcColIdx row.2 = 0) :
    ∃ out : List ChunkRow, out.Perm rows ∧ InOrder (compareChunkRows keys places) out ∧
      emittedRows places chunks = out.map (sqlRow places) := by
  obtain ⟨indices, hsorts, hdrains⟩ := h
  obtain ⟨rowFor, hrowFor⟩ := exists_rowFor rows
  obtain ⟨hperm, hsorted⟩ := hsorts.inOrder (hless.rowFor hrowFor)
  have hrows : (indices.map rowFor).Perm rows := by
    have hmap := hperm.map rowFor
    rwa [map_range_rowFor hrowFor] at hmap
  have hrowsCarry : ∀ i ∈ indices, ∀ writes, gatherRow i = .ok writes →
      Carries places writes (rowFor i) := by
    intro i hi writes hwrites
    have hlt := List.mem_range.1 (hperm.subset hi)
    rw [hrowFor i _ (List.getElem?_eq_getElem hlt)]
    exact hcarries i _ (List.getElem?_eq_getElem hlt) writes hwrites
  have hemitted := hdrains.emitted hrowsCarry
  refine ⟨indices.map rowFor, hrows, hsorted, ?_⟩
  rw [hemitted, List.drop_zero, List.map_map]
  refine List.map_congr_left fun i hi => List.map_congr_left fun place hplace => ?_
  have hmem : rowFor i ∈ rows := hrows.subset (List.mem_map_of_mem hi)
  exact (if_pos (hnull _ hmem place hplace)).symm

/-- **A sort can be drained** where all its rows can be gathered. -/
theorem exists_emits (hless : ComparesRows less keys places rows)
    (hok : ∀ i < rows.length, ∃ writes, gatherRow i = .ok writes) (out : DataChunk) :
    ∃ chunks, Emits less gatherRow rows.length chunks := by
  obtain ⟨rowFor, hrowFor⟩ := exists_rowFor rows
  obtain ⟨indices, hsorts⟩ := exists_sorts (hless.rowFor hrowFor)
  obtain ⟨hperm, -⟩ := hsorts.inOrder (hless.rowFor hrowFor)
  obtain ⟨chunks, hchunks⟩ := exists_drains
    (fun i hi => hok i (List.mem_range.1 (hperm.subset hi))) out 0
  exact ⟨chunks, indices, hsorts, hchunks⟩

end Sorted
end SortedSources
end PgYaap
