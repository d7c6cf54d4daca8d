import Mathlib
import PgYaap.HashJoinProbe
import PgYaap.TransitionSystem
import PgYaap.TupleDataCollectionRows

/-! # The build tables of a hash join

A worker sinks its build rows into two row stores of its own, one for the key
columns and one for the payload columns; where the payload is not needed, or has
the layout of the keys, the second is the first. The combine event merges them
into two global row stores, in one of three ways. With a payload that stays in
the local tables, and with keys of fixed width, every worker copies its rows into
a range of its own, strings included, and moves the heap offsets of its strings
by the start of its part of the heap. With string keys, every worker appends its
rows one by one, in batches of 64 under a lock, and the tables grow on the way.

An `elog(ERROR)` is an error with its text. The loops that grow a table until a
row fits carry fuel. Cancellation is left out. -/
namespace PgYaap
namespace HashJoinBuild
open HashJoinProbe TupleDataCollection

/-- What the plan says about the build side. -/
structure HashJoinBuildDesc where
  joinMode : HashJoinMatchMode
  buildKeyLayout : TupleDataLayout
  buildLayout : TupleDataLayout
  outputColumns : List HashJoinOutputColumnDesc
  nFilterInputs : Nat
  nFilterExprs : Nat
  nFilterSteps : Nat

namespace HashJoinBuildDesc
variable (desc : HashJoinBuildDesc)

def canShareLocalPayload : Bool :=
  (desc.joinMode = .anti || desc.joinMode = .semi) &&
    !outputColumnsReferenceRight desc.outputColumns

def payloadRowsUnused : Bool :=
  desc.canShareLocalPayload && desc.nFilterInputs = 0 && desc.nFilterExprs = 0 &&
    desc.nFilterSteps = 0

def buildRowsUseKeys : Bool :=
  TupleDataLayout.layoutsEqual desc.buildKeyLayout desc.buildLayout || desc.payloadRowsUnused

def buildRowsSharedLocal : Bool :=
  !desc.payloadRowsUnused && (desc.buildLayout.hasStringRef || desc.canShareLocalPayload)

end HashJoinBuildDesc

/-- The key table and the payload table, of a worker or of all. Where the payload
rows use the keys, `build_rows` points to the key table and the second table is
not there. -/
structure BuildTables where
  buildKeys : TupleDataCollection
  ownRows : TupleDataCollection

namespace BuildTables
variable (desc : HashJoinBuildDesc)

def buildRows (t : BuildTables) : TupleDataCollection :=
  if desc.buildRowsUseKeys then t.buildKeys else t.ownRows

def setBuildRows (t : BuildTables) (rows : TupleDataCollection) : BuildTables :=
  if desc.buildRowsUseKeys then { t with buildKeys := rows } else { t with ownRows := rows }

end BuildTables

/-! ## Growing -/

/-- `TdcNeedsGrowForChunkRow`. -/
def tdcNeedsGrowForChunkRow (layout : TupleDataLayout) (t : TupleDataCollection)
    (chunk : DataChunk) (rowIdx : Nat) : Bool :=
  !t.hasSpaceForAppend (requiredHeapBytesForChunkRow layout chunk rowIdx)

/-- `TdcNeedsGrowForStoredRow`. -/
def tdcNeedsGrowForStoredRow (layout : TupleDataLayout) (t src : TupleDataCollection)
    (srcRow : Nat) : Bool :=
  !t.hasSpaceForAppend (requiredHeapBytesForRow layout src srcRow)

/-- The loop body of `GrowJoinTdc`. -/
def growCopyRow (layout : TupleDataLayout) (old new : TupleDataCollection) (rowIdx : Nat) :
    Except String TupleDataCollection :=
  match new.appendRow with
  | none => .error "pg_yaap: hash join TDC grow overflow"
  | some (new, dst) => copyBuildRow layout old rowIdx new dst

/-- `GrowJoinTdc`. -/
def growJoinTdc (layout : TupleDataLayout) (old : TupleDataCollection) (requiredHeapBytes : Nat) :
    Except String TupleDataCollection := do
  let newCapacity ← clampRowCapacity (max (old.rowCapacity * 2 % 2 ^ 32) (old.rowCount + 1))
    layout.rowWidth requiredHeapBytes (old.rowCount + 1)
  let heapCapacity ← growHeapCapacity layout old newCapacity requiredHeapBytes
  let new ← allocate newCapacity layout.rowWidth heapCapacity
  (List.range old.rowCount).foldlM (growCopyRow layout old) new

/-- Grow a table unless it has space for a row with `required` heap bytes. -/
def growUnless (hasSpace : Bool) (layout : TupleDataLayout) (t : TupleDataCollection)
    (requiredHeapBytes : Nat) : Except String TupleDataCollection :=
  if hasSpace then .ok t else growJoinTdc layout t requiredHeapBytes

section Sink
variable (desc : HashJoinBuildDesc) (chunk : DataChunk) (rowIdx : Nat)

/-- The condition of the loop of `EnsureJoinLocalCapacity`. -/
def localNeedsGrow (t : BuildTables) : Bool :=
  tdcNeedsGrowForChunkRow desc.buildKeyLayout t.buildKeys chunk rowIdx ||
    (!desc.buildRowsUseKeys && tdcNeedsGrowForChunkRow desc.buildLayout t.ownRows chunk rowIdx)

/-- The body of the loop of `EnsureJoinLocalCapacity`. -/
def growLocal (t : BuildTables) : Except String BuildTables := do
  let keys ← growUnless (!tdcNeedsGrowForChunkRow desc.buildKeyLayout t.buildKeys chunk rowIdx)
    desc.buildKeyLayout t.buildKeys (requiredHeapBytesForChunkRow desc.buildKeyLayout chunk rowIdx)
  let rows ← growUnless (desc.buildRowsUseKeys ||
      !tdcNeedsGrowForChunkRow desc.buildLayout t.ownRows chunk rowIdx)
    desc.buildLayout t.ownRows (requiredHeapBytesForChunkRow desc.buildLayout chunk rowIdx)
  return ⟨keys, rows⟩

/-- `EnsureJoinLocalCapacity`. -/
def ensureJoinLocalCapacity : Nat → BuildTables → Option (Except String BuildTables)
  | 0, _ => none
  | fuel + 1, t =>
    if localNeedsGrow desc chunk rowIdx t then
      match growLocal desc chunk rowIdx t with
      | .error e => some (.error e)
      | .ok t => ensureJoinLocalCapacity fuel t
    else some (.ok t)

/-- `SinkChunk`, from the appends on, for one row. -/
def appendChunkRow (t : BuildTables) : Except String BuildTables :=
  match t.buildKeys.appendRow with
  | none => .error "pg_yaap: hash join local build key row capacity exceeded"
  | some (keys, keyRow) =>
    if desc.buildRowsUseKeys then do
      let keys ← scatterGroupOnly desc.buildKeyLayout keys keyRow chunk rowIdx
      return { t with buildKeys := keys }
    else
      match t.ownRows.appendRow with
      | none => .error "pg_yaap: hash join local build row capacity exceeded"
      | some (rows, row) => do
        let keys ← scatterGroupOnly desc.buildKeyLayout keys keyRow chunk rowIdx
        let rows ← scatterGroupOnly desc.buildLayout rows row chunk rowIdx
        return ⟨keys, rows⟩

/-- `SinkChunk` for one row. -/
def sinkRow (fuel : Nat) (t : BuildTables) : Option (Except String BuildTables) :=
  (ensureJoinLocalCapacity desc chunk rowIdx fuel t).map fun r =>
    r.bind (appendChunkRow desc chunk rowIdx)

end Sink

/-! ## Combining row by row -/

section Locked
variable (desc : HashJoinBuildDesc) (src : BuildTables) (rowIdx : Nat)

/-- The condition of the loop of `EnsureJoinGlobalCapacity`. -/
def globalNeedsGrow (t : BuildTables) : Bool :=
  tdcNeedsGrowForStoredRow desc.buildKeyLayout t.buildKeys src.buildKeys rowIdx ||
    (!desc.buildRowsUseKeys &&
      tdcNeedsGrowForStoredRow desc.buildLayout t.ownRows (src.buildRows desc) rowIdx)

/-- The body of the loop of `EnsureJoinGlobalCapacity`. -/
def growGlobal (t : BuildTables) : Except String BuildTables := do
  let keys ← growUnless
    (!tdcNeedsGrowForStoredRow desc.buildKeyLayout t.buildKeys src.buildKeys rowIdx)
    desc.buildKeyLayout t.buildKeys
    (requiredHeapBytesForRow desc.buildKeyLayout src.buildKeys rowIdx)
  let rows ← growUnless (desc.buildRowsUseKeys ||
      !tdcNeedsGrowForStoredRow desc.buildLayout t.ownRows (src.buildRows desc) rowIdx)
    desc.buildLayout t.ownRows
    (requiredHeapBytesForRow desc.buildLayout (src.buildRows desc) rowIdx)
  return ⟨keys, rows⟩

/-- `EnsureJoinGlobalCapacity`. -/
def ensureJoinGlobalCapacity : Nat → BuildTables → Option (Except String BuildTables)
  | 0, _ => none
  | fuel + 1, t =>
    if globalNeedsGrow desc src rowIdx t then
      match growGlobal desc src rowIdx t with
      | .error e => some (.error e)
      | .ok t => ensureJoinGlobalCapacity fuel t
    else some (.ok t)

/-- The body of the loop of `Combine` after the capacity is ensured. Both appends
come first; where the payload rows use the keys, both go to the key table. -/
def appendBuildRow (t : BuildTables) : Except String BuildTables :=
  match t.buildKeys.appendRow with
  | none => .error "pg_yaap: hash join global build key row capacity exceeded during combine"
  | some (keys, dstKeyRow) =>
    let t := { t with buildKeys := keys }
    match (t.buildRows desc).appendRow with
    | none => .error "pg_yaap: hash join global build row capacity exceeded during combine"
    | some (rows, dstRow) => do
      let t := t.setBuildRows desc rows
      let keys ← copyBuildRow desc.buildKeyLayout src.buildKeys rowIdx t.buildKeys dstKeyRow
      let t := { t with buildKeys := keys }
      let rows ←
        copyBuildRow desc.buildLayout (src.buildRows desc) rowIdx (t.buildRows desc) dstRow
      return t.setBuildRows desc rows

/-- The rows of one batch of `Combine`, from row `rowIdx` on. -/
def combineRows (fuel : Nat) : Nat → Nat → BuildTables → Option (Except String BuildTables)
  | 0, _, t => some (.ok t)
  | k + 1, rowIdx, t =>
    match ensureJoinGlobalCapacity desc src rowIdx fuel t with
    | none => none
    | some (.error e) => some (.error e)
    | some (.ok t) =>
      match appendBuildRow desc src rowIdx t with
      | .error e => some (.error e)
      | .ok t => combineRows fuel k (rowIdx + 1) t

end Locked

/-! ## Combining range by range -/

/-- `HashJoinLocalBuildRegistryEntry`, with what the prepare step writes. -/
structure RegistryEntry where
  rowCount : Nat
  keyHeapUsed : Nat
  rowHeapUsed : Nat
  globalRowOffset : Nat
  globalKeyHeapOffset : Nat
  globalRowHeapOffset : Nat
deriving DecidableEq

/-- The totals of the prepare step. -/
structure Totals where
  rows : Nat
  keyHeap : Nat
  rowHeap : Nat
deriving DecidableEq

/-- The loop of `PrepareHashJoinCombine` over the slots. -/
def prepareRegistry (desc : HashJoinBuildDesc) :
    List BuildTables → Totals → List RegistryEntry × Totals
  | [], total => ([], total)
  | t :: ts, total =>
    let entry : RegistryEntry :=
      { rowCount := t.buildKeys.rowCount
        keyHeapUsed := t.buildKeys.heapUsed
        rowHeapUsed := (t.buildRows desc).heapUsed
        globalRowOffset := total.rows % 2 ^ 32
        globalKeyHeapOffset := total.keyHeap % 2 ^ 32
        globalRowHeapOffset := total.rowHeap % 2 ^ 32 }
    let rest := prepareRegistry desc ts
      ⟨total.rows + entry.rowCount, total.keyHeap + entry.keyHeapUsed,
        total.rowHeap + entry.rowHeapUsed⟩
    (entry :: rest.1, rest.2)

/-- `EnsureEmptyJoinGlobalCapacity`. -/
def ensureEmptyJoinGlobalCapacity (layout : TupleDataLayout) (t : TupleDataCollection)
    (targetRows targetHeapUsed : Nat) : Except String TupleDataCollection :=
  if targetRows ≤ t.rowCapacity ∧ targetHeapUsed ≤ t.heapCapacity then .ok t
  else if t.rowCount ≠ 0 ∨ t.heapUsed ≠ 0 then
    .error "pg_yaap: hash join combine prepare expected empty global TDC"
  else do
    let newRowCapacity ← clampRowCapacity (max t.rowCapacity (max 1 targetRows)) layout.rowWidth
      targetHeapUsed (max 1 targetRows)
    let newHeapCapacity ←
      if t.heapCapacity < targetHeapUsed then
        growHeapCapacity layout t newRowCapacity targetHeapUsed
      else .ok t.heapCapacity
    if newHeapCapacity < targetHeapUsed then
      .error "pg_yaap: hash join combine prepare failed to size string heap"
    else allocate newRowCapacity layout.rowWidth newHeapCapacity

/-- What the workers of a combine event share. -/
structure CombineState where
  tables : BuildTables
  /-- The registry, once the event is prepared. -/
  registry : Option (List RegistryEntry)
  combinedRowCount : Nat
  combinedKeyHeapUsed : Nat
  combinedRowHeapUsed : Nat
  buildRowSlots : Nat → Nat
  buildRowLocalIdxs : Nat → Nat
  /-- How many of its rows a worker has appended, batch by batch. -/
  rowIdx : Nat → Nat
  finished : Nat → Bool

section Copy
variable (desc : HashJoinBuildDesc)

/-- `PrepareHashJoinCombine`, by the worker that comes first; the others find the
registry. The hash table it allocates is the subject of `HashJoinCombine`. -/
def prepareHashJoinCombine (locals : List BuildTables) (s : CombineState) :
    Except String CombineState :=
  if s.registry.isSome then .ok s
  else
    let (registry, total) := prepareRegistry desc locals ⟨0, 0, 0⟩
    if uint32Max < total.rows ∨ uint32Max < total.keyHeap ∨ uint32Max < total.rowHeap then
      .error "pg_yaap: hash join combine totals exceed uint32 range"
    else do
      let keys ← ensureEmptyJoinGlobalCapacity desc.buildKeyLayout s.tables.buildKeys total.rows
        total.keyHeap
      let rows ←
        if !desc.buildRowsSharedLocal && !desc.buildRowsUseKeys then
          ensureEmptyJoinGlobalCapacity desc.buildLayout s.tables.ownRows total.rows total.rowHeap
        else .ok s.tables.ownRows
      return { s with
        tables := ⟨keys, rows⟩
        registry := some registry
        combinedRowCount := total.rows
        combinedKeyHeapUsed := total.keyHeap
        combinedRowHeapUsed := if desc.buildRowsUseKeys then total.keyHeap else total.rowHeap }

/-- The loop body of `CopyStringAwareRowsIntoGlobal` over the columns. -/
def relocateColumn (src : TupleDataCollection) (srcRow dstRow heapOffset : Nat)
    (dst : TupleDataCollection) (col : TdcPlacedColumn) : TupleDataCollection :=
  if col.kind ≠ .stringRef then dst
  else
    let ref := src.stringRef srcRow col
    if ref.len = 0 ∨ ref.isInline = true then dst
    else dst.writeColumn dstRow col
      { ref with offset := (ref.offset + heapOffset) % 2 ^ 32 : VecStringRef }.bytes

/-- The loop body of `CopyStringAwareRowsIntoGlobal` over the rows. -/
def copyStringAwareRow (layout : TupleDataLayout) (src : TupleDataCollection)
    (rowOffset heapOffset : Nat) (dst : TupleDataCollection) (rowIdx : Nat) : TupleDataCollection :=
  layout.columns.foldl (relocateColumn src rowIdx (rowOffset + rowIdx) heapOffset)
    { dst with
      rows := dst.rows.write (dst.getRow (rowOffset + rowIdx))
        (src.rows.read (src.getRow rowIdx) layout.rowWidth) }

/-- `CopyStringAwareRowsIntoGlobal`. -/
def copyStringAwareRowsIntoGlobal (layout : TupleDataLayout) (src dst : TupleDataCollection)
    (rowOffset rowCount heapOffset : Nat) : TupleDataCollection :=
  (List.range rowCount).foldl (copyStringAwareRow layout src rowOffset heapOffset) dst

/-- The heap copy of `CopyLocalTdcIntoGlobal`. -/
def copyHeap (src dst : TupleDataCollection) (heapOffset : Nat) : TupleDataCollection :=
  if 0 < src.heapUsed then
    { dst with
      rows := dst.rows.write (dst.heap + heapOffset) (src.rows.read src.heap src.heapUsed) }
  else dst

/-- `CopyLocalTdcIntoGlobal`. -/
def copyLocalTdcIntoGlobal (layout : TupleDataLayout) (src dst : TupleDataCollection)
    (rowOffset heapOffset : Nat) : TupleDataCollection :=
  let dst := copyHeap src dst heapOffset
  if src.rowCount = 0 then dst
  else if layout.hasStringRef then
    copyStringAwareRowsIntoGlobal layout src dst rowOffset src.rowCount heapOffset
  else
    { dst with
      rows := dst.rows.write (dst.getRow rowOffset)
        (src.rows.read (src.getRow 0) (src.rowCount * layout.rowWidth)) }

/-- `ExecuteHashJoinCombine` and `ExecuteHashJoinSharedPayloadCombine`, without the
hash table: they differ in what they do after the keys. -/
def executeHashJoinCombine (locals : List BuildTables) (w : Nat) (s : CombineState) :
    Except String CombineState := do
  let s ← prepareHashJoinCombine desc locals s
  match s.registry.bind (·[w]?), locals[w]? with
  | some entry, some src =>
    let keys := copyLocalTdcIntoGlobal desc.buildKeyLayout src.buildKeys s.tables.buildKeys
      entry.globalRowOffset entry.globalKeyHeapOffset
    let s := { s with
      tables := { s.tables with buildKeys := keys }
      finished := Function.update s.finished w true }
    if desc.buildRowsSharedLocal then
      let mine := fun g =>
        entry.globalRowOffset ≤ g ∧ g < entry.globalRowOffset + entry.rowCount
      return { s with
        buildRowSlots := fun g => if mine g then w else s.buildRowSlots g
        buildRowLocalIdxs := fun g =>
          if mine g then g - entry.globalRowOffset else s.buildRowLocalIdxs g }
    else if desc.buildRowsUseKeys then return s
    else
      let rows := copyLocalTdcIntoGlobal desc.buildLayout (src.buildRows desc) s.tables.ownRows
        entry.globalRowOffset entry.globalRowHeapOffset
      return { s with tables := { s.tables with ownRows := rows } }
  | _, _ => .error "pg_yaap: hash join combine registry slot missing"

end Copy

/-! ## The combine event -/

section Combine
variable (desc : HashJoinBuildDesc) (locals : List BuildTables)

/-- One batch of a worker in the branch of `Combine` for string keys, and its end. -/
def combineLocked (fuel w : Nat) (src : BuildTables) (s : CombineState) :
    Option (Except String CombineState) :=
  if src.buildKeys.rowCount ≠ (src.buildRows desc).rowCount then
    some (.error "pg_yaap: hash join local build key/payload row counts diverged")
  else if s.rowIdx w < src.buildKeys.rowCount then
    let batchEnd := min (s.rowIdx w + 64) src.buildKeys.rowCount
    (combineRows desc src fuel (batchEnd - s.rowIdx w) (s.rowIdx w) s.tables).map fun r =>
      r.map fun t => { s with tables := t, rowIdx := Function.update s.rowIdx w batchEnd }
  else some (.ok { s with finished := Function.update s.finished w true })

/-- `PhysicalHashJoin::Combine`, as the steps of worker `w`. -/
def combine (fuel w : Nat) (s : CombineState) : Option (Except String CombineState) :=
  match locals[w]? with
  | none => some (.error "pg_yaap: hash join combine local state missing")
  | some src =>
    if desc.buildRowsSharedLocal then some (executeHashJoinCombine desc locals w s)
    else if desc.buildKeyLayout.hasStringRef then combineLocked desc fuel w src s
    else some (executeHashJoinCombine desc locals w s)

/-- The global tables before the event: empty, of the widths of their layouts. -/
def IsInitial (s : CombineState) : Prop :=
  Holds desc.buildKeyLayout s.tables.buildKeys [] ∧ Holds desc.buildLayout s.tables.ownRows [] ∧
    s.registry = none ∧ (∀ w, s.rowIdx w = 0) ∧ ∀ w, s.finished w = false

/-- The steps of the workers, in any order, as long as none ends in an error. -/
def system : TransitionSystem CombineState Nat where
  Init := IsInitial desc
  Step s w s' := w < locals.length ∧ s.finished w = false ∧
    ∃ fuel, combine desc locals fuel w s = some (.ok s')

/-- `PublishHashJoinCombinedRows`: the row counts of the copied tables. -/
def publishHashJoinCombinedRows (s : CombineState) : CombineState :=
  if s.registry.isSome then
    let keys := { s.tables.buildKeys with
      rowCount := s.combinedRowCount, heapUsed := s.combinedKeyHeapUsed }
    let rows :=
      if !desc.buildRowsSharedLocal && !desc.buildRowsUseKeys then
        { s.tables.ownRows with
          rowCount := s.combinedRowCount, heapUsed := s.combinedRowHeapUsed }
      else s.tables.ownRows
    { s with tables := ⟨keys, rows⟩ }
  else s

end Combine
end HashJoinBuild
end PgYaap
