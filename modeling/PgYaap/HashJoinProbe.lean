import Mathlib
import PgYaap.HashJoinCombine
import PgYaap.RelationalJoin
import PgYaap.StreamingOperator
import PgYaap.TupleData

/-! # Probing a hash join

The probe side of a hash join reads a chunk of probe rows and fills an output
chunk with at most 2048 rows. For every probe row it walks the chain of the
bucket of the row's hash, skipping the rows with another salt, compares keys,
evaluates the residual filter, and does what the join mode asks for. When the
output chunk is full in the middle of a chain, the cursor keeps the position.

A second loop, for inner joins on a single integer key without filter, does the
same with a typed comparison. Both loops poll for cancellation, which is left
out. The loops carry fuel, and log the pairs of a probe row and a build row they
took for a match. -/
namespace PgYaap

/-- The match modes of a hash join. -/
abbrev HashJoinMatchMode := JoinMode

namespace HashJoinProbe
open HashJoinCombine

/-- `PIPELINE_DEFAULT_CHUNK_SIZE`. -/
def chunkSize : Nat := 2048

inductive HashJoinOutputSide
  | left
  | right
deriving DecidableEq

inductive ColumnDecodeKind
  | none
  | int32Char
  | int32Date
  | int32Int4
  | int64Int8
  | int64NumericScaled
  | doubleFloat8
  | stringRef
deriving DecidableEq

/-- `ColumnDecodeKindToTdcKind`; `NONE` has no column kind. -/
def ColumnDecodeKind.toTdcKind : ColumnDecodeKind → Option TdcColumnKind
  | .none => Option.none
  | .int32Char | .int32Date | .int32Int4 => some .int32
  | .int64Int8 | .int64NumericScaled => some .int64
  | .doubleFloat8 => some .double
  | .stringRef => some .stringRef

structure HashJoinOutputColumnDesc where
  side : HashJoinOutputSide
  inputChunkSlot : Nat
  decodeKind : ColumnDecodeKind
  outputChunkSlot : Nat

/-- A build row as the build tables keep it: its key columns and its payload columns. -/
structure BuildRow where
  keys : List Datum
  payload : List Datum

/-- What the plan says about a hash join. The residual filter is what its
expressions compute of a probe row and a stored payload row. -/
structure HashJoinDesc where
  joinMode : HashJoinMatchMode
  probeKeyLayout : List TdcColumnDesc
  buildKeyLayout : List TdcColumnDesc
  buildLayout : List TdcColumnDesc
  outputColumns : List HashJoinOutputColumnDesc
  joinFilter : Option (DataChunk → Nat → List Datum → Bool)
  buildRowsSharedLocal : Bool

/-- `SinkChunk` for one row: key and payload columns are scattered, null flags
are not looked at. -/
def sinkRow (buildKeyLayout buildLayout : List TdcColumnDesc) (chunk : DataChunk) (rowIdx : Nat) :
    BuildRow where
  keys := scatterGroupColumns buildKeyLayout chunk rowIdx
  payload := scatterGroupColumns buildLayout chunk rowIdx

/-- The hash table of the build rows: bucket heads, and a link and a salt for
every row. -/
structure HashTable where
  capacity : UInt32
  bucketHeads : UInt32 → UInt32
  links : UInt32 → UInt32
  salts : UInt32 → UInt16

/-- `Finalize` for one row: the row becomes the head of its bucket. -/
def HashTable.insert (t : HashTable) (rowIdx : UInt32) (hash : UInt64) : HashTable :=
  let bucket := hashBucket t.capacity hash
  { t with
    salts := Function.update t.salts rowIdx (hashJoinSalt hash)
    links := Function.update t.links rowIdx (t.bucketHeads bucket)
    bucketHeads := Function.update t.bucketHeads bucket rowIdx }

/-- The loop of `Finalize` over the build rows. -/
def finalizeLoop (rows : List BuildRow) (t : HashTable) : HashTable :=
  rows.zipIdx.foldl (fun t x => t.insert (UInt32.ofNat x.2) (hashGroupRow x.1.keys)) t

/-- `Finalize` of a table that was not built during the combine event: no table
for no rows. What the fresh arrays hold is arbitrary, except the heads. -/
def finalize (rows : List BuildRow) (links : UInt32 → UInt32) (salts : UInt32 → UInt16) :
    Option HashTable :=
  if rows.isEmpty then none
  else (computeHashTableCapacity (UInt32.ofNat rows.length)).map fun capacity =>
    finalizeLoop rows ⟨capacity, fun _ => invalidRow, links, salts⟩

/-- What the probe finds: the build rows, and a hash table unless there are none. -/
structure HashJoinPayload where
  buildRows : List BuildRow
  table : Option HashTable

/-- `HashJoinProbeCursorState`. -/
structure HashJoinProbeCursor where
  activeProbe : Bool
  currentInputDrained : Bool
  probeRowIdx : Nat
  buildRowIdx : UInt32
  haveBuildCursor : Bool
  probeSalt : UInt16
  probeMatched : Bool
deriving DecidableEq

/-- The cursor moves on to the next probe row. -/
def HashJoinProbeCursor.nextProbeRow (c : HashJoinProbeCursor) : HashJoinProbeCursor :=
  { c with
    probeMatched := false
    haveBuildCursor := false
    probeRowIdx := c.probeRowIdx + 1 }

/-- The cursor of a new operator state. -/
def HashJoinProbeCursor.fresh : HashJoinProbeCursor :=
  ⟨false, false, 0, invalidRow, false, 0, false⟩

/-- What a loop asks of the chunk and the build tables. -/
structure ProbeInput where
  count : Nat
  hash : Nat → UInt64
  keyMatches : Nat → UInt32 → Bool
  filterPasses : Nat → UInt32 → Bool

/-- An output row: a probe row, with a build row or null-extended. -/
abbrev JoinedRow := Nat × Option UInt32

/-- What a loop works on: the cursor, the output rows so far, and the pairs taken
for a match so far. -/
structure ProbeState where
  cursor : HashJoinProbeCursor
  out : List JoinedRow
  matched : List (Nat × UInt32)
deriving DecidableEq

section Loops
variable (t : HashTable)

/-- Follow the links to the next row with the wanted salt. -/
def skipOtherSalts (salt : UInt16) : Nat → UInt32 → Option UInt32
  | 0, _ => none
  | fuel + 1, rowIdx =>
    if rowIdx ≠ invalidRow ∧ t.salts rowIdx ≠ salt then skipOtherSalts salt fuel (t.links rowIdx)
    else some rowIdx

/-- Enter the chain of a probe row. -/
def startProbeRow (v : ProbeInput) (fuel : Nat) (c : HashJoinProbeCursor) :
    Option HashJoinProbeCursor :=
  let hash := v.hash c.probeRowIdx
  (skipOtherSalts t (hashJoinSalt hash) fuel (t.bucketHeads (hashBucket t.capacity hash))).map
    fun rowIdx =>
      { c with
        probeSalt := hashJoinSalt hash
        buildRowIdx := rowIdx
        haveBuildCursor := true
        probeMatched := false }

/-- The inner loop of `Execute`: walk the chain, and collect a batch of output
rows. `room` is what is left in the output chunk. -/
def chainLoop (mode : HashJoinMatchMode) (v : ProbeInput) (room : Nat) :
    Nat → HashJoinProbeCursor → List JoinedRow → List (Nat × UInt32) → Option ProbeState
  | 0, _, _, _ => none
  | fuel + 1, c, batch, matched =>
    if c.buildRowIdx = invalidRow then some ⟨c, batch, matched⟩
    else
      (skipOtherSalts t c.probeSalt fuel (t.links c.buildRowIdx)).bind fun next =>
        let rowIdx := c.buildRowIdx
        let c := { c with buildRowIdx := next }
        if v.keyMatches c.probeRowIdx rowIdx && v.filterPasses c.probeRowIdx rowIdx then
          let matched := matched ++ [(c.probeRowIdx, rowIdx)]
          match mode with
          | .anti => some ⟨{ c with probeMatched := true, buildRowIdx := invalidRow }, [], matched⟩
          | .semi =>
            some ⟨{ c with probeMatched := true, buildRowIdx := invalidRow },
              batch ++ [(c.probeRowIdx, some rowIdx)], matched⟩
          | .inner | .left =>
            let c := { c with probeMatched := true }
            let batch := batch ++ [(c.probeRowIdx, some rowIdx)]
            if room ≤ batch.length then some ⟨c, batch, matched⟩
            else chainLoop mode v room fuel c batch matched
        else chainLoop mode v room fuel c batch matched

/-- The null-extended row of a probe row without match. -/
def unmatchedRow (mode : HashJoinMatchMode) (c : HashJoinProbeCursor) (batch : List JoinedRow) :
    List JoinedRow :=
  if (mode = .anti ∨ mode = .left) ∧ c.buildRowIdx = invalidRow ∧ batch = [] ∧
      c.probeMatched = false then
    [(c.probeRowIdx, none)]
  else batch

/-- The loop of `Execute` over the probe rows. -/
def probeLoop (mode : HashJoinMatchMode) (v : ProbeInput) : Nat → ProbeState → Option ProbeState
  | 0, _ => none
  | fuel + 1, s =>
    if v.count ≤ s.cursor.probeRowIdx then some s
    else if chunkSize ≤ s.out.length then some s
    else
      (if s.cursor.haveBuildCursor then some s.cursor else startProbeRow t v fuel s.cursor).bind
        fun c => (chainLoop t mode v (chunkSize - s.out.length) fuel c [] s.matched).bind fun r =>
          let c := r.cursor
          let out := s.out ++ unmatchedRow mode c r.out
          if c.buildRowIdx = invalidRow then
            let c := c.nextProbeRow
            if chunkSize ≤ out.length then some ⟨c, out, r.matched⟩
            else probeLoop mode v fuel ⟨c, out, r.matched⟩
          else if chunkSize ≤ out.length then some ⟨c, out, r.matched⟩
          else probeLoop mode v fuel ⟨c, out, r.matched⟩

/-- The inner loop of `TryFastInnerJoinProbe`. -/
def fastChainLoop (v : ProbeInput) : Nat → ProbeState → Option ProbeState
  | 0, _ => none
  | fuel + 1, s =>
    let c := s.cursor
    if c.buildRowIdx = invalidRow then some s
    else
      (skipOtherSalts t c.probeSalt fuel (t.links c.buildRowIdx)).bind fun next =>
        let rowIdx := c.buildRowIdx
        let c := { c with buildRowIdx := next }
        if v.keyMatches c.probeRowIdx rowIdx then
          let s : ProbeState :=
            ⟨c, s.out ++ [(c.probeRowIdx, some rowIdx)], s.matched ++ [(c.probeRowIdx, rowIdx)]⟩
          if chunkSize ≤ s.out.length then some s else fastChainLoop v fuel s
        else fastChainLoop v fuel { s with cursor := c }

/-- The loop of `TryFastInnerJoinProbe` over the probe rows. `nullKey` is the null
flag of the key slot. -/
def fastProbeLoop (v : ProbeInput) (nullKey : Nat → Bool) : Nat → ProbeState → Option ProbeState
  | 0, _ => none
  | fuel + 1, s =>
    let c := s.cursor
    if v.count ≤ c.probeRowIdx then some s
    else if chunkSize ≤ s.out.length then some s
    else if c.haveBuildCursor = false ∧ nullKey c.probeRowIdx then
      fastProbeLoop v nullKey fuel { s with cursor := { c with probeRowIdx := c.probeRowIdx + 1 } }
    else
      (if c.haveBuildCursor then some c else startProbeRow t v fuel c).bind fun c =>
        (fastChainLoop t v fuel { s with cursor := c }).bind fun s =>
          let c := s.cursor
          if c.buildRowIdx = invalidRow then
            fastProbeLoop v nullKey fuel
              { s with cursor := { c with
                haveBuildCursor := false
                probeRowIdx := c.probeRowIdx + 1 } }
          else if chunkSize ≤ s.out.length then some s
          else fastProbeLoop v nullKey fuel s

end Loops

/-- Both loops start a new input chunk at its first row. -/
def HashJoinProbeCursor.activate (c : HashJoinProbeCursor) : HashJoinProbeCursor :=
  if c.activeProbe then c
  else ⟨true, c.currentInputDrained, 0, invalidRow, false, 0, false⟩

/-- What both loops do at the end of the input chunk. -/
def ProbeState.leave (count : Nat) (s : ProbeState) : ProbeState :=
  if count ≤ s.cursor.probeRowIdx then
    { s with cursor := ⟨false, !s.out.isEmpty, s.cursor.probeRowIdx, invalidRow, false, 0, false⟩ }
  else s

section Execute
variable (desc : HashJoinDesc) (payload : HashJoinPayload)

/-- `MatchGroupLayouts` of a probe row and a build row. -/
def keyMatches (chunk : DataChunk) (rowIdx : Nat) (buildRowIdx : UInt32) : Bool :=
  match payload.buildRows[buildRowIdx.toNat]? with
  | none => false
  | some row => matchGroupLayouts desc.buildKeyLayout row.keys desc.probeKeyLayout chunk rowIdx

def filterPasses (chunk : DataChunk) (rowIdx : Nat) (buildRowIdx : UInt32) : Bool :=
  match desc.joinFilter, payload.buildRows[buildRowIdx.toNat]? with
  | some p, some row => p chunk rowIdx row.payload
  | _, _ => true

/-- What the general loop reads. -/
def generalInput (chunk : DataChunk) : ProbeInput where
  count := chunk.count
  hash := hashGroup desc.probeKeyLayout chunk
  keyMatches := keyMatches desc payload chunk
  filterPasses := filterPasses desc payload chunk

/-- The conditions of `InitializeHashJoinFastProbeState` for the fast loop. -/
def fastInnerEnabled : Bool :=
  desc.joinMode = .inner && desc.outputColumns.all (fun col => col.decodeKind ≠ .none) &&
    desc.joinFilter.isNone &&
    match desc.probeKeyLayout, desc.buildKeyLayout with
    | [probeCol], [buildCol] =>
      probeCol.kind = buildCol.kind && probeCol.srcColIdx < 16 &&
        (probeCol.kind = .int32 || probeCol.kind = .int64)
    | _, _ => false

/-- The slot and kind of the fast loop's key. -/
def fastKeyColumn : TdcColumnDesc := desc.probeKeyLayout.headD ⟨.int32, 0⟩

/-- The typed hash of the fast loop. -/
def fastHash (chunk : DataChunk) (rowIdx : Nat) : UInt64 :=
  let col := fastKeyColumn desc
  if col.kind = .int32 then hashSingleGroupInt32Value (chunk.getInt32 col.srcColIdx rowIdx)
  else hashSingleGroupInt64Value (chunk.getInt64 col.srcColIdx rowIdx)

/-- The typed comparison of the fast loop, with the value at `build_key_offset`. -/
def fastKeyMatches (chunk : DataChunk) (rowIdx : Nat) (buildRowIdx : UInt32) : Bool :=
  let col := fastKeyColumn desc
  match (payload.buildRows[buildRowIdx.toNat]?).bind (·.keys.head?) with
  | some (.int32 v) => col.kind = .int32 && v = chunk.getInt32 col.srcColIdx rowIdx
  | some (.int64 v) => col.kind = .int64 && v = chunk.getInt64 col.srcColIdx rowIdx
  | _ => false

/-- What the fast loop reads. -/
def fastInput (chunk : DataChunk) : ProbeInput where
  count := chunk.count
  hash := fastHash desc chunk
  keyMatches := fastKeyMatches desc payload chunk
  filterPasses := fun _ _ => true

def fastNullKey (chunk : DataChunk) (rowIdx : Nat) : Bool :=
  chunk.nulls (fastKeyColumn desc).srcColIdx rowIdx ≠ 0

/-- The general probe loop, from a cursor. -/
def executeGeneral (t : HashTable) (chunk : DataChunk) (fuel : Nat) (c : HashJoinProbeCursor) :
    Option ProbeState :=
  (probeLoop t desc.joinMode (generalInput desc payload chunk) fuel ⟨c.activate, [], []⟩).map
    (ProbeState.leave chunk.count)

/-- `TryFastInnerJoinProbe`, where it is enabled. -/
def executeFast (t : HashTable) (chunk : DataChunk) (fuel : Nat) (c : HashJoinProbeCursor) :
    Option ProbeState :=
  (fastProbeLoop t (fastInput desc payload chunk) (fastNullKey desc chunk) fuel
    ⟨c.activate, [], []⟩).map (ProbeState.leave chunk.count)

/-- Which loop `Execute` runs. -/
def usesFastProbe : Bool := !desc.buildRowsSharedLocal && fastInnerEnabled desc

/-- `PhysicalHashJoin::Execute` without its first branch. Without a table it
answers at once. -/
def executeProbe (chunk : DataChunk) (fuel : Nat) (c : HashJoinProbeCursor) : Option ProbeState :=
  match payload.table with
  | none => some ⟨c, [], []⟩
  | some t =>
    if usesFastProbe desc then executeFast desc payload t chunk fuel c
    else executeGeneral desc payload t chunk fuel c

end Execute

/-- The first branch of `Execute`: after the call that exhausted the input it only
takes the mark back. -/
def afterDrained (probe : Nat → HashJoinProbeCursor → Option ProbeState) (fuel : Nat)
    (c : HashJoinProbeCursor) : Option ProbeState :=
  if c.currentInputDrained then some ⟨{ c with currentInputDrained := false }, [], []⟩
  else probe fuel c

/-- `PhysicalHashJoin::Execute`. It answers `HAVE_MORE_OUTPUT` exactly with output rows. -/
def execute (desc : HashJoinDesc) (payload : HashJoinPayload) (chunk : DataChunk) :
    Nat → HashJoinProbeCursor → Option ProbeState :=
  afterDrained (executeProbe desc payload chunk)

/-- Calls of `Execute` with one input chunk until it answers `NEED_MORE_INPUT`:
all output rows and all pairs taken for a match. -/
def resume (step : Nat → HashJoinProbeCursor → Option ProbeState) :
    Nat → HashJoinProbeCursor → Option ProbeState
  | 0, _ => none
  | fuel + 1, c =>
    (step fuel c).bind fun s =>
      if s.out.isEmpty then some s
      else (resume step fuel s.cursor).map fun r =>
        ⟨r.cursor, s.out ++ r.out, s.matched ++ r.matched⟩

/-- The probe of one chunk after the other, each resumed until `NEED_MORE_INPUT`. -/
def probeChunks (desc : HashJoinDesc) (payload : HashJoinPayload) (fuel : Nat) :
    List DataChunk → HashJoinProbeCursor → Option (List ProbeState)
  | [], _ => some []
  | chunk :: chunks, c =>
    (resume (execute desc payload chunk) fuel c).bind fun r =>
      (probeChunks desc payload fuel chunks r.cursor).map fun rs => r :: rs

/-! ## Output rows -/

/-- A cell of an output row: a `NONE` column leaves the value as it was. -/
structure OutputCell where
  outputChunkSlot : Nat
  value : Option Datum
  isNull : UInt8
deriving DecidableEq

/-- The value a null-extended column is set to. -/
def zeroDatum : TdcColumnKind → Datum
  | .int32 => .int32 0
  | .int64 => .int64 0
  | .double => .double 0
  | .stringRef => .stringRef []

/-- `FindRightColumnBySlotAndKind`: the position of a payload column. A plan whose
output names no payload column ends with an error. -/
def findRightColumnBySlotAndKind (layout : List TdcColumnDesc) (slot : Nat) (kind : TdcColumnKind) :
    Option Nat :=
  layout.findIdx? fun col => col.srcColIdx = slot && col.kind = kind

/-- `CopyResolvedJoinRow` for one output column. -/
def copyResolvedJoinColumn (desc : HashJoinDesc) (chunk : DataChunk) (rowIdx : Nat)
    (right : Option (List Datum)) (col : HashJoinOutputColumnDesc) : OutputCell :=
  match col.decodeKind.toTdcKind with
  | none => ⟨col.outputChunkSlot, none, 1⟩
  | some kind =>
    match col.side, right with
    | .left, _ =>
      ⟨col.outputChunkSlot, some (chunk.get kind col.inputChunkSlot rowIdx),
        chunk.nulls col.inputChunkSlot rowIdx⟩
    | .right, none => ⟨col.outputChunkSlot, some (zeroDatum kind), 1⟩
    | .right, some row =>
      ⟨col.outputChunkSlot,
        (findRightColumnBySlotAndKind desc.buildLayout col.inputChunkSlot kind).bind (row[·]?), 0⟩

/-- `CopyResolvedJoinRow`. -/
def copyResolvedJoinRow (desc : HashJoinDesc) (chunk : DataChunk) (rowIdx : Nat)
    (right : Option (List Datum)) : List OutputCell :=
  desc.outputColumns.map (copyResolvedJoinColumn desc chunk rowIdx right)

/-- `OutputColumnsReferenceRight`. -/
def outputColumnsReferenceRight (outputColumns : List HashJoinOutputColumnDesc) : Bool :=
  outputColumns.any fun col => col.side = .right && col.decodeKind ≠ .none

/-- The general loop only hands on a build row when it needs one. -/
def needsBuildRow (desc : HashJoinDesc) : Bool :=
  desc.joinFilter.isSome || outputColumnsReferenceRight desc.outputColumns

/-- The payload row of a build row. -/
def HashJoinPayload.payloadRow (payload : HashJoinPayload) (buildRowIdx : UInt32) :
    Option (List Datum) :=
  (payload.buildRows[buildRowIdx.toNat]?).map (·.payload)

/-- The row the general loop writes. -/
def writeGeneral (desc : HashJoinDesc) (payload : HashJoinPayload) (chunk : DataChunk)
    (row : JoinedRow) : List OutputCell :=
  copyResolvedJoinRow desc chunk row.1
    (if needsBuildRow desc then row.2.bind payload.payloadRow else none)

/-- The row the fast loop writes. -/
def writeFast (desc : HashJoinDesc) (payload : HashJoinPayload) (chunk : DataChunk)
    (row : JoinedRow) : List OutputCell :=
  copyResolvedJoinRow desc chunk row.1 (row.2.bind payload.payloadRow)

end HashJoinProbe
end PgYaap
