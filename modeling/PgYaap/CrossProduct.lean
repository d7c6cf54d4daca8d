import Mathlib
import PgYaap.HashJoinBuildTables
import PgYaap.HashJoinProbe
import PgYaap.StreamingOperator

/-! # The cross product

The build side of a cross product is sunk by several workers, each into a row
store of its own; the combine event appends those rows to a shared one, in
batches of 64 under a lock. Every process has its own pointer to the shared
store. Where a row does not fit, the process copies the store into a larger one
and goes on with its pointer to that; the payload in shared memory keeps the
pointer it had. Finalize and the probe side read the store of the payload.

The probe side makes every pair of a probe row and a build row, with a cursor
over both, in output chunks of at most 2048 rows. An `elog(ERROR)` is an error
with its text; cancellation is left out. -/
namespace PgYaap
namespace CrossProduct
open HashJoinProbe HashJoinBuild TupleDataCollection

/-- What the plan says about a cross product. The translator takes at least 1024
for the number of build rows. -/
structure CrossProductDesc where
  rightLayout : TupleDataLayout
  outputColumns : List HashJoinOutputColumnDesc
  maxRows : Nat
  localStateSlotCount : Nat
  le_maxRows : 1024 ≤ maxRows
  maxRows_lt : maxRows < 2 ^ 32

/-! ## Growing -/

/-- `CopyBuildRow`, with the text of its error. -/
def copyBuildRow (layout : TupleDataLayout) (src : TupleDataCollection) (srcRow : Nat)
    (dst : TupleDataCollection) (dstRow : Nat) : Except String TupleDataCollection :=
  (TupleDataCollection.copyBuildRow layout src srcRow dst dstRow).mapError fun _ =>
    "pg_yaap: cross product build-row copy ran out of heap"

/-- The loop body of `GrowTdcCopyRows`. -/
def growCopyRow (layout : TupleDataLayout) (old new : TupleDataCollection) (rowIdx : Nat) :
    Except String TupleDataCollection :=
  match new.appendRow with
  | none => .error "pg_yaap: cross product grow TDC capacity copy failed"
  | some (new, dst) => copyBuildRow layout old rowIdx new dst

/-- `GrowTdcCopyRows`. -/
def growTdcCopyRows (layout : TupleDataLayout) (old : TupleDataCollection)
    (minimumRowCapacity : Nat) : Except String TupleDataCollection := do
  let newCapacity := max minimumRowCapacity
    (if old.rowCapacity < 2 ^ 30 then old.rowCapacity * 2 else old.rowCapacity)
  let heapCapacity ←
    (if layout.hasStringRef then growHeapCapacity layout old newCapacity 0 else .ok 0)
  let new ← allocate newCapacity layout.rowWidth heapCapacity
  (List.range old.rowCount).foldlM (growCopyRow layout old) new

/-! ## Sinking -/

section Sink
variable (desc : CrossProductDesc)

/-- The local store of `GetLocalSinkState`. -/
def allocateLocal : Except String TupleDataCollection :=
  let slots := max 1 desc.localStateSlotCount
  let capacity := max 1024 ((desc.maxRows + slots - 1) % 2 ^ 32 / slots)
  allocate capacity desc.rightLayout.rowWidth (defaultHeapCapacity desc.rightLayout capacity)

/-- `SinkChunk` for one row. -/
def sinkRow (chunk : DataChunk) (t : TupleDataCollection) (rowIdx : Nat) :
    Except String TupleDataCollection := do
  let t ←
    (if tdcNeedsGrowForChunkRow desc.rightLayout t chunk rowIdx then
      growTdcCopyRows desc.rightLayout t ((t.rowCapacity + 1) % 2 ^ 32)
    else .ok t)
  match t.appendRow with
  | none => .error "pg_yaap: cross product local build row capacity exceeded"
  | some (t, row) => scatterGroupOnly desc.rightLayout t row chunk rowIdx

/-- `SinkChunk`. -/
def sinkChunk (t : TupleDataCollection) (chunk : DataChunk) : Except String TupleDataCollection :=
  (List.range chunk.count).foldlM (sinkRow desc chunk) t

/-- All chunks a worker sinks, into its local store. -/
def sinkChunks (chunks : List DataChunk) : Except String TupleDataCollection := do
  let t ← allocateLocal desc
  chunks.foldlM (sinkChunk desc) t

end Sink

/-! ## The combine event -/

/-- What the workers share, and what each of them has for itself: `view` is the
store its `build_rows` points to once that is not the shared one. -/
structure CombineState where
  buildRows : TupleDataCollection
  mutex : Option Nat
  view : Nat → Option TupleDataCollection
  rowIdx : Nat → Nat
  batchEnd : Nat → Nat
  finished : Nat → Bool

namespace CombineState
variable (s : CombineState) (w : Nat)

/-- The store that `build_rows` of a worker points to. -/
def table : TupleDataCollection := (s.view w).getD s.buildRows

/-- A change of that store, in place. -/
def setTable (t : TupleDataCollection) : CombineState :=
  match s.view w with
  | none => { s with buildRows := t }
  | some _ => { s with view := Function.update s.view w (some t) }

end CombineState

section Combine
variable (desc : CrossProductDesc)

/-- The capacity of the shared store in `GetGlobalSinkState`. -/
def globalRowCapacity : Nat := max 1024 desc.maxRows

def globalHeapCapacity : Nat := defaultHeapCapacity desc.rightLayout (globalRowCapacity desc)

/-- One turn of the loops of `Combine` under the lock: the store grows, or the row
is appended. -/
def combineRow (src : TupleDataCollection) (w : Nat) (s : CombineState) :
    Except String CombineState := do
  let t := s.table w
  if tdcNeedsGrowForStoredRow desc.rightLayout t src (s.rowIdx w) then
    let new ← growTdcCopyRows desc.rightLayout t ((t.rowCapacity + 1) % 2 ^ 32)
    return { s with view := Function.update s.view w (some new) }
  else
    match t.appendRow with
    | none => .error "pg_yaap: cross product global build row capacity exceeded during combine"
    | some (t, dstRow) =>
      let t ← copyBuildRow desc.rightLayout src (s.rowIdx w) t dstRow
      return { s.setTable w t with rowIdx := Function.update s.rowIdx w (s.rowIdx w + 1) }

/-- `Combine`, step by step: take the lock for a batch, append its rows, release
the lock. `none` is a worker that waits for the lock. -/
def combine (src : TupleDataCollection) (w : Nat) (s : CombineState) :
    Option (Except String CombineState) :=
  match s.mutex with
  | some holder =>
    if holder ≠ w then none
    else if s.rowIdx w < s.batchEnd w then some (combineRow desc src w s)
    else some (.ok { s with mutex := none })
  | none =>
    if s.rowIdx w < src.rowCount then
      some (.ok { s with
        mutex := some w
        batchEnd := Function.update s.batchEnd w (min (s.rowIdx w + 64) src.rowCount) })
    else some (.ok { s with finished := Function.update s.finished w true })

/-- The shared store is new, and nobody has begun. -/
def IsInitial (s : CombineState) : Prop :=
  allocate (globalRowCapacity desc) desc.rightLayout.rowWidth (globalHeapCapacity desc) =
      .ok s.buildRows ∧
    s.mutex = none ∧ (∀ w, s.view w = none) ∧ (∀ w, s.rowIdx w = 0) ∧ ∀ w, s.finished w = false

/-- The steps of the workers, in any order, as long as none ends in an error. -/
def system (locals : List TupleDataCollection) : TransitionSystem CombineState Nat where
  Init := IsInitial desc
  Step s w s' := ∃ src, locals[w]? = some src ∧ s.finished w = false ∧
    combine desc src w s = some (.ok s')

/-- Every worker has run its combine task to the end. -/
def Completed (locals : List TupleDataCollection) (s : CombineState) : Prop :=
  ∀ w < locals.length, s.finished w = true

/-- `Finalize`, in the leader: the store it hands to the probe side. -/
def finalize (s : CombineState) : Except String TupleDataCollection :=
  if desc.maxRows < s.buildRows.rowCount then
    .error "pg_yaap: cross product build side exceeded max rows (%u > %u)"
  else .ok s.buildRows

end Combine

/-! ## Probing -/

/-- `CrossProductOperatorState`. -/
structure Cursor where
  currentInputDrained : Bool
  probeRowIdx : Nat
  buildRowIdx : Nat
deriving DecidableEq

def Cursor.fresh : Cursor := ⟨false, 0, 0⟩

/-- The inner loop of `Execute`, with what is left of the output chunk: the batch
of build rows for one probe row, and the next build row. -/
def batchLoop (buildRowCount probeRowIdx : Nat) :
    Nat → Nat → List (Nat × Nat) → List (Nat × Nat) × Nat
  | 0, b, batch => (batch, b)
  | room + 1, b, batch =>
    if b < buildRowCount then
      batchLoop buildRowCount probeRowIdx room (b + 1) (batch ++ [(probeRowIdx, b)])
    else (batch, b)

/-- The loop of `Execute` over the probe rows. Its turns are counted by fuel. -/
def probeLoop (count buildRowCount : Nat) :
    Nat → Nat → Nat → List (Nat × Nat) → Option (Nat × Nat × List (Nat × Nat))
  | 0, _, _, _ => none
  | fuel + 1, p, b, out =>
    if p < count ∧ out.length < chunkSize then
      let (batch, b) := batchLoop buildRowCount p (chunkSize - out.length) b []
      let out := out ++ batch
      if buildRowCount ≤ b then probeLoop count buildRowCount fuel (p + 1) 0 out
      else probeLoop count buildRowCount fuel p b out
    else some (p, b, out)

/-- `Execute`: the output pairs, and the cursor. It answers `HAVE_MORE_OUTPUT`
exactly with output pairs. -/
def execute (count buildRowCount fuel : Nat) (c : Cursor) :
    Option (Cursor × List (Nat × Nat)) :=
  if c.currentInputDrained then some ({ c with currentInputDrained := false }, [])
  else
    (probeLoop count buildRowCount fuel c.probeRowIdx c.buildRowIdx []).map fun (p, b, out) =>
      if count ≤ p then (⟨!out.isEmpty, 0, 0⟩, out) else (⟨c.currentInputDrained, p, b⟩, out)

/-- Calls of `Execute` with one input chunk until it answers `NEED_MORE_INPUT`. -/
def resume (count buildRowCount : Nat) : Nat → Cursor → Option (Cursor × List (Nat × Nat))
  | 0, _ => none
  | fuel + 1, c =>
    (execute count buildRowCount fuel c).bind fun (c, out) =>
      if out.isEmpty then some (c, [])
      else (resume count buildRowCount fuel c).map fun (c, rest) => (c, out ++ rest)

/-- `CopyRowsByResolvedMappingBatch` for one pair. -/
def outputRow (desc : CrossProductDesc) (chunk : DataChunk) (rowIdx : Nat) (right : List Datum) :
    List OutputCell :=
  copyResolvedJoinRow ⟨.inner, [], [], desc.rightLayout.descs, desc.outputColumns, none, false⟩
    chunk rowIdx (some right)

/-- The output row of a pair, with the build row as it is stored. -/
def pairRow (desc : CrossProductDesc) (buildRows : TupleDataCollection) (chunk : DataChunk)
    (pair : Nat × Nat) : List OutputCell :=
  outputRow desc chunk pair.1 (buildRows.decodeRow desc.rightLayout pair.2)

/-- The probe side of one task: one chunk after the other, with one cursor. -/
def probeChunks (desc : CrossProductDesc) (buildRows : TupleDataCollection) (fuel : Nat) :
    List DataChunk → Cursor → Option (List (List OutputCell))
  | [], _ => some []
  | chunk :: chunks, c =>
    (resume chunk.count buildRows.rowCount fuel c).bind fun (c, pairs) =>
      (probeChunks desc buildRows fuel chunks c).map fun rest =>
        pairs.map (pairRow desc buildRows chunk) ++ rest

/-! ## What the cross product should be -/

section Reference
variable (desc : CrossProductDesc)

/-- The build rows that the workers sink. -/
def sunkRows (buildChunks : List (List DataChunk)) : List (List Datum) :=
  buildChunks.flatten.flatMap fun chunk =>
    (List.range chunk.count).map (scatterGroupColumns desc.rightLayout.descs chunk)

/-- The output rows of all pairs of a probe row and a build row. -/
def crossRows (probeChunks : List DataChunk) (buildRows : List (List Datum)) :
    List (List OutputCell) :=
  probeChunks.flatMap fun chunk =>
    (List.range chunk.count).flatMap fun rowIdx => buildRows.map (outputRow desc chunk rowIdx)

/-- The probe tasks, each with its chunks, emit every pair exactly once. -/
def EmitsEveryPair (buildChunks : List (List DataChunk)) (buildRows : TupleDataCollection) : Prop :=
  ∀ tasks : List (List DataChunk), ∃ outs : List (List (List OutputCell)),
    List.Forall₂
      (fun chunks out => Arrives (probeChunks desc buildRows · chunks .fresh) out) tasks outs ∧
    outs.flatten.Perm (crossRows desc tasks.flatten (sunkRows desc buildChunks))

/-- **What the claim asks of a completed combine event**: an error, or a store with
every sunk row exactly once, and every pair emitted exactly once. -/
def CompleteOrError (buildChunks : List (List DataChunk)) (s : CombineState) : Prop :=
  (∃ e, finalize desc s = .error e) ∨
    ∃ t, finalize desc s = .ok t ∧
      (t.storedRows desc.rightLayout).Perm (sunkRows desc buildChunks) ∧
      EmitsEveryPair desc buildChunks t

/-- All sunk rows together fit the store that the event begins with. -/
def Fits (buildChunks : List (List DataChunk)) : Prop :=
  (sunkRows desc buildChunks).length ≤ globalRowCapacity desc ∧
    ((sunkRows desc buildChunks).map rowHeapBytes).sum ≤ globalHeapCapacity desc

end Reference

end CrossProduct
end PgYaap
