import PgYaap.PayloadStores
import PgYaap.InterleavedRows
import PgYaap.SortKeys

/-! # Row stores of a bounded number of rows

The top-N and the output sink keep the best rows that have arrived in a row store. Once it is full
a new row is compared with the worst stored one; where it comes before that one the store is built
anew, with the other rows and the new one. The two have a copy of the code each, and differ in how
they read the new row, in the size of the new store and in the texts of their errors.

The stores have columns only, those of a schema, and no aggregates. -/
namespace PgYaap
namespace TopNRows

open AggregateStates BoundedSelection NullFlags PayloadStores SortKeys TupleDataCollection
open HashJoinBuild hiding growCopyRow

/-- The schema of the rows that arrive, and the layout that `BuildColumnOnlyLayout` makes of it. -/
structure SinkColumns where
  schema : List OutputColumn
  layout : TupleDataLayout
  built : layout.descs.map some =
    schema.map fun col => col.decodeKind.toTdcKind.map fun kind => ⟨kind, col.chunkSlot⟩

/-! ## Comparing -/

/-- `CompareStoredRows`, `CompareStoredOutputRows` and the test of the sorts. -/
def compareStoredRows (layout : TupleDataLayout) (keys : List SortKeyDesc)
    (t : TupleDataCollection) (lhs rhs : Nat) : Ordering :=
  compareKeys (fun key => layout.columns[key.colIdx]?.map fun col =>
    compareKeyColumn (t.decodeColumn lhs col) (t.decodeColumn rhs col)) keys

/-- `CompareChunkRowToStoredRow`, with the way a value of the chunk is read. -/
def compareChunkRowToStoredRow (read : TdcColumnKind → Nat → Datum) (cols : SinkColumns)
    (keys : List SortKeyDesc) (t : TupleDataCollection) (stored : Nat) : Ordering :=
  compareKeys (fun key => cols.layout.columns[key.colIdx]?.bind fun col =>
    cols.schema[key.colIdx]?.map fun schemaCol =>
      compareKeyColumn (read col.kind schemaCol.chunkSlot) (t.decodeColumn stored col)) keys

/-- `FindWorstStoredRowIndex` and `FindWorstTopNRowIndex`. -/
def findWorstRowIndex (layout : TupleDataLayout) (keys : List SortKeyDesc)
    (t : TupleDataCollection) : Nat :=
  worstIndex (fun i worst => compareStoredRows layout keys t i worst = .gt) t.rowCount

/-! ## Building a store anew -/

/-- The heap of the new store: the default, or what its rows need. -/
def rebuiltHeapCapacity (layout : TupleDataLayout) (rowCapacity : Nat) (old : TupleDataCollection)
    (row : ChunkRow) (survivors : List Nat) : Nat :=
  let heapNeeded := (survivors.map (requiredHeapBytesForRow layout old)).sum +
    requiredHeapBytesForChunkRow layout row.1 row.2
  if defaultHeapCapacity layout rowCapacity < heapNeeded then heapNeeded % 2 ^ 32
  else defaultHeapCapacity layout rowCapacity

/-- `RebuildGlobalTdc` and `ReplaceWorstTopNRow`: the stored rows but one, and a chunk row. -/
def rebuildTdc (overflow appendOverflow : String) (copyRow : CopyRow) (layout : TupleDataLayout)
    (rowCapacity : Nat) (old : TupleDataCollection) (row : ChunkRow) (replaceRowIdx : Nat) :
    Except String TupleDataCollection := do
  let survivors := (List.range old.rowCount).filter fun rowIdx => rowIdx ≠ replaceRowIdx
  let new ← allocate rowCapacity layout.rowWidth
    (rebuiltHeapCapacity layout rowCapacity old row survivors)
  let new ← survivors.foldlM (growCopyRow overflow copyRow old) new
  match new.appendRow with
  | none => .error appendOverflow
  | some (new, dst) => scatterGroupOnly layout new dst row.1 row.2

/-! ## Stored rows -/

/-- The stored values of a chunk row. -/
def storedRow (layout : TupleDataLayout) (row : ChunkRow) : List Datum :=
  scatterGroupColumns layout.descs row.1 row.2

/-- A store that holds chunk rows. -/
abbrev HoldsChunkRows (layout : TupleDataLayout) (t : TupleDataCollection)
    (rows : List ChunkRow) : Prop := Holds layout t (rows.map (storedRow layout))

section Stored

variable {cols : SinkColumns} {layout : TupleDataLayout} {keys : List SortKeyDesc}
  {t t' old dst : TupleDataCollection} {rows kept : List ChunkRow} {row : ChunkRow} {rowIdx : Nat}
  {copyRow : CopyRow} {overflow appendOverflow : String}

theorem storedRow_eq (layout : TupleDataLayout) (row : ChunkRow) :
    storedRow layout row =
      layout.columns.map fun col => row.1.get col.kind col.srcColIdx row.2 := by
  unfold storedRow scatterGroupColumns DataChunk.groupColumns TupleDataLayout.descs
  exact List.map_map

/-- A stored column has the value of the chunk row. -/
theorem decodeColumn_of_holds (h : HoldsChunkRows layout t rows) (hrow : rows[rowIdx]? = some row)
    {col : TdcPlacedColumn} (hcol : col ∈ layout.columns) :
    t.decodeColumn rowIdx col = row.1.get col.kind col.srcColIdx row.2 := by
  have hvalues := (h.row rowIdx (storedRow layout row)
    (by rw [List.getElem?_map, hrow]; rfl)).decodeRow
  rw [storedRow_eq] at hvalues
  exact List.map_inj_left.1 hvalues col hcol

theorem getElem?_descs (layout : TupleDataLayout) (k : Nat) :
    layout.descs[k]? = layout.columns[k]?.map TdcPlacedColumn.toTdcColumnDesc :=
  List.getElem?_map

/-- **Stored rows compare** as their chunk rows do. -/
theorem compareStoredRows_eq (h : HoldsChunkRows layout t rows) {i j : Nat} {row row' : ChunkRow}
    (hi : rows[i]? = some row) (hj : rows[j]? = some row')
    (hrow : Sortable keys layout.descs row) (hrow' : Sortable keys layout.descs row') :
    compareStoredRows layout keys t i j = compareChunkRows keys layout.descs row row' := by
  apply compareKeys_rows hrow hrow'
  intro key _
  rw [getElem?_descs]
  cases hcol : layout.columns[key.colIdx]? with
  | none => rfl
  | some col =>
    have hmem := List.mem_of_getElem? hcol
    show some (compareKeyColumn (t.decodeColumn i col) (t.decodeColumn j col)) = _
    rw [decodeColumn_of_holds h hi hmem, decodeColumn_of_holds h hj hmem]
    rfl

/-- The slot of a column of the schema. -/
theorem SinkColumns.chunkSlot (cols : SinkColumns) {k : Nat} {col : TdcPlacedColumn}
    (hcol : cols.layout.columns[k]? = some col) :
    ∃ schemaCol, cols.schema[k]? = some schemaCol ∧ schemaCol.chunkSlot = col.srcColIdx ∧
      schemaCol.decodeKind.toTdcKind = some col.kind := by
  have hbuilt := congrArg (·[k]?) cols.built
  simp only [List.getElem?_map, getElem?_descs, hcol, Option.map_some] at hbuilt
  cases hschema : cols.schema[k]? with
  | none =>
    rw [hschema] at hbuilt
    cases hbuilt
  | some schemaCol =>
    rw [hschema, Option.map_some, Option.some.injEq] at hbuilt
    cases hkind : schemaCol.decodeKind.toTdcKind with
    | none =>
      rw [hkind] at hbuilt
      cases hbuilt
    | some kind =>
      rw [hkind, Option.map_some, Option.some.injEq] at hbuilt
      exact ⟨schemaCol, rfl, congrArg TdcColumnDesc.srcColIdx hbuilt.symm,
        hkind.trans (congrArg some (congrArg TdcColumnDesc.kind hbuilt.symm))⟩

/-- The keys of a chunk row are read as they would be stored. -/
def ReadsKeys (read : TdcColumnKind → Nat → Datum) (layout : TupleDataLayout)
    (keys : List SortKeyDesc) (row : ChunkRow) : Prop :=
  ∀ key ∈ keys, ∀ col, layout.columns[key.colIdx]? = some col →
    read col.kind col.srcColIdx = row.1.get col.kind col.srcColIdx row.2

/-- **A chunk row compares** with a stored row as with the chunk row that one was. -/
theorem compareChunkRowToStoredRow_eq {read : TdcColumnKind → Nat → Datum}
    (h : HoldsChunkRows cols.layout t rows) {j : Nat} {row' : ChunkRow}
    (hj : rows[j]? = some row') (hread : ReadsKeys read cols.layout keys row)
    (hrow : Sortable keys cols.layout.descs row) (hrow' : Sortable keys cols.layout.descs row') :
    compareChunkRowToStoredRow read cols keys t j =
      compareChunkRows keys cols.layout.descs row row' := by
  apply compareKeys_rows hrow hrow'
  intro key hkey
  rw [getElem?_descs]
  cases hcol : cols.layout.columns[key.colIdx]? with
  | none => rfl
  | some col =>
    obtain ⟨schemaCol, hschema, hslot, -⟩ := cols.chunkSlot hcol
    rw [hschema]
    show some (compareKeyColumn (read col.kind schemaCol.chunkSlot) (t.decodeColumn j col)) = _
    rw [hslot, hread key hkey col hcol, decodeColumn_of_holds h hj (List.mem_of_getElem? hcol)]
    rfl

/-- **The row that is found** is a worst one. -/
theorem findWorstRowIndex_spec (h : HoldsChunkRows layout t rows) (hrows : 0 < rows.length)
    (hsortable : ∀ row ∈ rows, Sortable keys layout.descs row) :
    ∃ worst, rows[findWorstRowIndex layout keys t]? = some worst ∧
      ∀ row ∈ rows, (compareChunkRows keys layout.descs row worst).isLE = true := by
  have hcount : t.rowCount = rows.length := by rw [h.rowCount, List.length_map]
  let rowFor : Nat → ChunkRow := fun i => rows[i]?.getD rows[0]
  have hrowFor : ∀ i (hi : i < rows.length), rowFor i = rows[i] := fun i hi =>
    congrArg (Option.getD · rows[0]) (List.getElem?_eq_getElem hi)
  have hcompare : ∀ i < t.rowCount, ∀ j < t.rowCount,
      decide (compareStoredRows layout keys t i j = .gt) = true ↔
        compareChunkRows keys layout.descs (rowFor i) (rowFor j) = .gt := by
    intro i hi j hj
    rw [hcount] at hi hj
    rw [decide_eq_true_eq, hrowFor i hi, hrowFor j hj,
      compareStoredRows_eq h (List.getElem?_eq_getElem hi) (List.getElem?_eq_getElem hj)
        (hsortable _ (List.getElem_mem hi)) (hsortable _ (List.getElem_mem hj))]
  obtain ⟨hlt, hworst⟩ := worstIndex_spec (by omega) hcompare
  rw [hcount] at hlt
  refine ⟨_, List.getElem?_eq_getElem (hcount ▸ hlt), fun row hrow => ?_⟩
  obtain ⟨i, hi, rfl⟩ := List.getElem_of_mem hrow
  have hle := hworst i (by omega)
  rw [hrowFor i hi, hrowFor _ (hcount ▸ hlt)] at hle
  exact hle

/-! ## The store that is built -/

/-- A row is copied with all its values. -/
def CopiesRows (layout : TupleDataLayout) (copyRow : CopyRow) : Prop :=
  ∀ (src t dst t' : TupleDataCollection) (srcRow rowIdx : Nat) (rows : List (List Datum)),
    src.rowWidth = layout.rowWidth → Holds layout t rows → t.appendRow = some (dst, rowIdx) →
      copyRow src srcRow dst rowIdx = .ok t' →
        Holds layout t' (rows ++ [src.decodeRow layout srcRow])

/-- A loop that copies rows. -/
theorem copyRows_holds (hcopy : CopiesRows layout copyRow) (hold : HoldsChunkRows layout old rows)
    (indices : List Nat) (hindices : ∀ i ∈ indices, i < rows.length) :
    ∀ {t t' : TupleDataCollection} {kept : List ChunkRow}, HoldsChunkRows layout t kept →
      indices.foldlM (growCopyRow overflow copyRow old) t = .ok t' →
        HoldsChunkRows layout t' (kept ++ indices.filterMap (rows[·]?)) := by
  induction indices with
  | nil =>
    intro t t' kept h hok
    rw [← Except.ok.inj hok, List.filterMap_nil, List.append_nil]
    exact h
  | cons i indices ih =>
    intro t t' kept h hok
    rw [List.foldlM_cons] at hok
    obtain ⟨mid, hmid, hok⟩ := bind_eq_ok hok
    have hlt := hindices i List.mem_cons_self
    have hi := List.getElem?_eq_getElem hlt
    have hvalue := (hold.row i (storedRow layout rows[i])
      (by rw [List.getElem?_map, hi]; rfl)).decodeRow
    unfold growCopyRow at hmid
    split at hmid
    · cases hmid
    · rename_i dst rowIdx happ
      have hnext := hcopy old t dst mid i rowIdx _ hold.rowWidth h happ hmid
      rw [hvalue, ← List.map_singleton (f := storedRow layout), ← List.map_append] at hnext
      have hrest := ih (fun j hj => hindices j (List.mem_cons_of_mem _ hj)) hnext hok
      rw [List.filterMap_cons, hi]
      rwa [List.append_assoc, List.singleton_append] at hrest

/-- All rows but one, by their indices. -/
theorem filterMap_survivors (rows : List α) (replaced : Nat) :
    ((List.range rows.length).filter fun i => i ≠ replaced).filterMap (rows[·]?) =
      rows.eraseIdx replaced := by
  induction rows generalizing replaced with
  | nil => rfl
  | cons row rows ih =>
    rw [List.length_cons, List.range_succ_eq_map]
    cases replaced with
    | zero =>
      rw [List.filter_cons_of_neg (by simp), List.filter_map, List.filterMap_map]
      have hall : ((List.range rows.length).filter ((fun i => decide (i ≠ 0)) ∘ Nat.succ)) =
          List.range rows.length := List.filter_eq_self.2 fun i _ => by simp
      rw [hall]
      exact filterMap_getElem?_range rows
    | succ replaced =>
      rw [List.filter_cons_of_pos (by simp), List.filterMap_cons, List.filter_map,
        List.filterMap_map]
      have hsame : ((fun i => decide (i ≠ replaced + 1)) ∘ Nat.succ) =
          fun i => decide (i ≠ replaced) := funext fun i => by simp
      rw [hsame]
      exact congrArg (row :: ·) (ih replaced)

/-- The heap of the new store has a capacity of 32 bits. -/
theorem rebuiltHeapCapacity_lt (layout : TupleDataLayout) (rowCapacity : Nat)
    (old : TupleDataCollection) (row : ChunkRow) (survivors : List Nat) :
    rebuiltHeapCapacity layout rowCapacity old row survivors < 2 ^ 32 := by
  unfold rebuiltHeapCapacity
  dsimp only
  split
  · exact Nat.mod_lt _ (by decide)
  · unfold defaultHeapCapacity uint32Max
    omega

/-- **The store that is built** holds the rows but one, and the new one. -/
theorem rebuildTdc_holds (hcopy : CopiesRows layout copyRow) {rowCapacity replaced : Nat}
    (h : HoldsChunkRows layout old rows)
    (hok : rebuildTdc overflow appendOverflow copyRow layout rowCapacity old row replaced = .ok t') :
    HoldsChunkRows layout t' (rows.eraseIdx replaced ++ [row]) := by
  have hcount : old.rowCount = rows.length := by rw [h.rowCount, List.length_map]
  unfold rebuildTdc at hok
  rw [hcount] at hok
  obtain ⟨new, hnew, hok⟩ := bind_eq_ok hok
  obtain ⟨copied, hcopied, hok⟩ := bind_eq_ok hok
  have hempty : HoldsChunkRows layout new [] :=
    (allocate_holds (rebuiltHeapCapacity_lt _ _ _ _ _) hnew).1
  have hall := copyRows_holds hcopy h _ (by
    intro i hi
    exact List.mem_range.1 (List.mem_filter.1 hi).1) hempty hcopied
  rw [List.nil_append, filterMap_survivors] at hall
  split at hok
  · cases hok
  · rename_i dst rowIdx happ
    rw [HoldsChunkRows, List.map_append]
    exact hall.append_scatter happ hok

end Stored

/-- A store for no rows cannot be built. -/
theorem rebuildTdc_zero {layout : TupleDataLayout} {old t : TupleDataCollection} {row : ChunkRow}
    {copyRow : CopyRow} {overflow appendOverflow : String} {replaced : Nat}
    (hold : old.rowCount = 0) :
    rebuildTdc overflow appendOverflow copyRow layout 0 old row replaced ≠ .ok t := by
  intro hok
  unfold rebuildTdc at hok
  rw [hold] at hok
  obtain ⟨new, hnew, hok⟩ := bind_eq_ok hok
  obtain ⟨-, rfl⟩ := allocate_eq hnew
  cases hok

/-! ## What is kept -/

/-- **A store that keeps the best rows** of those that have arrived. -/
def KeepsBest (layout : TupleDataLayout) (keys : List SortKeyDesc) (n : Nat)
    (seen : List ChunkRow) (t : TupleDataCollection) : Prop :=
  ∃ kept, HoldsChunkRows layout t kept ∧
    Selects (compareChunkRows keys layout.descs) n seen kept

section Kept

variable {cols : SinkColumns} {layout : TupleDataLayout} {keys : List SortKeyDesc} {n : Nat}
  {t t' dst : TupleDataCollection} {seen : List ChunkRow} {row : ChunkRow} {rowIdx : Nat}
  {copyRow : CopyRow} {overflow appendOverflow : String}

/-- A row is appended while there is room. -/
theorem KeepsBest.append (h : KeepsBest layout keys n seen t) (hroom : t.rowCount < n)
    (happ : t.appendRow = some (dst, rowIdx))
    (hok : scatterGroupOnly layout dst rowIdx row.1 row.2 = .ok t') :
    KeepsBest layout keys n (seen ++ [row]) t' := by
  obtain ⟨kept, hholds, hselects⟩ := h
  have hcount : t.rowCount = kept.length := by rw [hholds.rowCount, List.length_map]
  refine ⟨kept ++ [row], ?_, hselects.append (hcount ▸ hroom)⟩
  rw [HoldsChunkRows, List.map_append]
  exact hholds.append_scatter happ hok

/-- The store is built anew while there is room. -/
theorem KeepsBest.rebuild (h : KeepsBest layout keys n seen t) (hroom : t.rowCount < n)
    (hcopy : CopiesRows layout copyRow) {rowCapacity replaced : Nat}
    (hreplaced : t.rowCount ≤ replaced)
    (hok : rebuildTdc overflow appendOverflow copyRow layout rowCapacity t row replaced = .ok t') :
    KeepsBest layout keys n (seen ++ [row]) t' := by
  obtain ⟨kept, hholds, hselects⟩ := h
  have hcount : t.rowCount = kept.length := by rw [hholds.rowCount, List.length_map]
  have hbuilt := rebuildTdc_holds hcopy hholds hok
  rw [List.eraseIdx_of_length_le (by omega)] at hbuilt
  exact ⟨kept ++ [row], hbuilt, hselects.append (hcount ▸ hroom)⟩

/-- **A full store**: the new row replaces the worst one where it comes before it. -/
theorem KeepsBest.full (h : KeepsBest cols.layout keys n seen t) (hn : 0 < n)
    (hfull : n ≤ t.rowCount) (hcopy : CopiesRows cols.layout copyRow)
    {read : TdcColumnKind → Nat → Datum} (hread : ReadsKeys read cols.layout keys row)
    (hrow : Sortable keys cols.layout.descs row)
    (hseen : ∀ row ∈ seen, Sortable keys cols.layout.descs row) {rowCapacity : Nat}
    (hok : (if compareChunkRowToStoredRow read cols keys t
        (findWorstRowIndex cols.layout keys t) = .lt then
      rebuildTdc overflow appendOverflow copyRow cols.layout rowCapacity t row
        (findWorstRowIndex cols.layout keys t)
      else .ok t) = .ok t') :
    KeepsBest cols.layout keys n (seen ++ [row]) t' := by
  obtain ⟨kept, hholds, hselects⟩ := h
  have hcount : t.rowCount = kept.length := by rw [hholds.rowCount, List.length_map]
  rw [hcount] at hfull
  have hkept : ∀ row ∈ kept, Sortable keys cols.layout.descs row :=
    fun row hrow => hseen row (hselects.subset hrow)
  obtain ⟨worst, hworst, hall⟩ := findWorstRowIndex_spec hholds (by omega) hkept
  rw [compareChunkRowToStoredRow_eq hholds hworst hread hrow
    (hkept worst (List.mem_of_getElem? hworst))] at hok
  by_cases hless : compareChunkRows keys cols.layout.descs row worst = .lt
  · rw [if_pos hless] at hok
    exact ⟨_, rebuildTdc_holds hcopy hholds hok, hselects.replace hfull hworst hall hless⟩
  · rw [if_neg hless] at hok
    obtain rfl := Except.ok.inj hok
    refine ⟨kept, hholds, hselects.skip hfull fun a ha => ?_⟩
    refine Std.TransCmp.isLE_trans (hall a ha) ?_
    rwa [← Std.OrientedCmp.isGE_iff_isLE, Ordering.isGE_iff_ne_lt]

end Kept
end TopNRows
end PgYaap
