import PgYaap.FilterAgreement
import PgYaap.HashJoinProbe
import PgYaap.TupleDataCollection

/-! # The short ways through a filter

A filter program is a list of steps over boolean registers. The standalone filter, the scan and
the join each have a short way for programs of one step, which computes the answer of the step
without registers: the filter and the scan for every test, the join for a comparison of a probe
column with a build column, which it then reads where they are. Here both ways are written down
on the steps as they are stored, with indices and constants in the string pool. -/
namespace PgYaap
namespace SimpleFilterSteps

open SqlLogic FilterProgram
open HashJoinProbe hiding ColumnDecodeKind HashJoinOutputSide

/-! ## Steps -/

/-- `FilterStepOp`. -/
inductive StepOp
  | int32CmpConst
  | int64CmpConst
  | stringEqConst
  | stringNeConst
  | stringPrefixLike
  | stringContainsLike
  | stringSqlLike
  | boolAnd
  | boolOr
  | boolNot
  | int32CmpVar
  | int64CmpVar
deriving DecidableEq

/-- `FilterStep`. -/
structure Step where
  op : StepOp
  cmpOp : QualOp
  leftIdx : Nat
  rightIdx : Nat
  outBoolReg : Nat
  constOffset : Nat
  constLen : Nat
  constValue : UInt64

/-- What the steps read of a filter chunk, by slot and row. -/
structure FilterChunk where
  nulls : Nat → Nat → Bool
  int32 : Nat → Nat → Int32
  int64 : Nat → Nat → Int64
  string : Nat → Nat → VecStringRef
  arena : List UInt8

/-- Where the bytes of a list begin. -/
def pointerTo (bytes : List UInt8) : ByteMemory := fun i => bytes.getD i 0

/-- `VecStringRefDataPtr`; `none` stands for a null pointer. -/
def dataPtr (ref : VecStringRef) (base : Option ByteMemory) : Option ByteMemory :=
  if ref.len = 0 then some (pointerTo [])
  else if ref.isInline then some (pointerTo ref.prefixBytes)
  else base.map fun m i => m (ref.offset + i)

/-- `get_string_ptr`; an empty arena has no memory. -/
def FilterChunk.stringPtr (chunk : FilterChunk) (slot row : Nat) : Option ByteMemory :=
  dataPtr (chunk.string slot row) (if chunk.arena = [] then none else some (pointerTo chunk.arena))

/-- `ResolveFilterConstPtr`: a constant of at most eight bytes may be in the step. -/
def resolveFilterConstPtr (step : Step) (stringConsts : Option ByteMemory) : Option ByteMemory :=
  if step.constLen = 0 then some (pointerTo [])
  else if step.constOffset = uint32Max then
    some (pointerTo (ByteMemory.encode 8 step.constValue.toNat))
  else stringConsts.map fun m i => m (step.constOffset + i)

/-- The constant of a 32-bit comparison. -/
def Step.constInt32 (step : Step) : Int32 := step.constValue.toUInt32.toInt32

/-- The constant of a 64-bit comparison. -/
def Step.constInt64 (step : Step) : Int64 := step.constValue.toInt64

/-- Whether `memcmp` finds no difference in `n` bytes, from `start` on the left. -/
def memcmpEq (lhs : ByteMemory) (start : Nat) (rhs : ByteMemory) (n : Nat) : Bool :=
  lhs.read start n == rhs.read 0 n

/-- What the copies of the interpreter differ in: which inputs have a scale they are brought to
before a comparison, the error when that fails, and the match of a pattern. -/
structure Copy where
  numericScale : Nat → Option Nat
  rescaleFailed : String
  matchPercentLike : Option ByteMemory → Nat → Option ByteMemory → Nat → Bool

/-- `MatchPercentLikePattern` of the filter: a null pointer matches nothing. -/
def matchPattern (lhs : Option ByteMemory) (lhsLen : Nat) (pattern : Option ByteMemory)
    (patternLen : Nat) : Bool :=
  match lhs, pattern with
  | some lhs, some pattern =>
    matchPercentLikePattern (lhs.read 0 lhsLen) (pattern.read 0 patternLen)
  | _, _ => false

/-- `MatchPercentLikePattern` of the scan and the join: a null text is read as `""`. -/
def matchPatternToEnd (lhs : Option ByteMemory) (lhsLen : Nat) (pattern : Option ByteMemory)
    (patternLen : Nat) : Bool :=
  match pattern with
  | none => false
  | some pattern =>
    matchPercentLikeToEnd ((lhs.getD (pointerTo [])).read 0 lhsLen) (pattern.read 0 patternLen)

/-- The operands of `INT64_CMP_VAR`: two scaled numerics are brought to one scale. -/
def Copy.int64Operands (C : Copy) (step : Step) (l r : Int64) : Except String (Int64 × Int64) :=
  match C.numericScale step.leftIdx, C.numericScale step.rightIdx with
  | some leftScale, some rightScale =>
    let targetScale := max leftScale rightScale
    match rescaleNumericForCompare l leftScale targetScale,
        rescaleNumericForCompare r rightScale targetScale with
    | some l, some r => .ok (l, r)
    | _, _ => .error C.rescaleFailed
  | _, _ => .ok (l, r)

/-- The equality of `STRING_EQ_CONST` and `STRING_NE_CONST`. -/
def stringEqual (ref : VecStringRef) (lhs rhs : Option ByteMemory) (constLen : Nat) : Bool :=
  match rhs with
  | none => false
  | some rhs =>
    (lhs.isSome || ref.len == 0) && ref.len == constLen &&
      (constLen == 0 || lhs.any (memcmpEq · 0 rhs constLen))

/-! ## The interpreter -/

/-- `bool_values`. -/
abbrev Regs := Nat → Bool

/-- The loop of `STRING_CONTAINS_LIKE`, with the places that are left. It sets the answer it has
to false at every place without a match. No string is so long that `start + const_len` wraps. -/
def containsLoop (lhs rhs : ByteMemory) (n : Nat) : Nat → Nat → Bool → Bool
  | 0, _, result => result
  | places + 1, start, _ =>
    if memcmpEq lhs start rhs n then true else containsLoop lhs rhs n places (start + 1) false

/-- The answer of a step, on a row and the registers: the `switch` of `EvalFilterStep`, with
`result` false until a branch sets it. -/
def Copy.stepResult (C : Copy) (chunk : FilterChunk) (row : Nat)
    (stringConsts : Option ByteMemory) (regs : Regs) (step : Step) : Except String Bool :=
  let isNull (idx : Nat) : Bool := chunk.nulls idx row
  let ref := chunk.string step.leftIdx row
  let lhs := chunk.stringPtr step.leftIdx row
  let rhs := resolveFilterConstPtr step stringConsts
  match step.op with
  | .int32CmpConst =>
    if !isNull step.leftIdx then
      .ok (step.cmpOp.holds
        (compare (chunk.int32 step.leftIdx row).toInt step.constInt32.toInt))
    else .ok false
  | .int64CmpConst =>
    if !isNull step.leftIdx then
      .ok (step.cmpOp.holds
        (compare (chunk.int64 step.leftIdx row).toInt step.constInt64.toInt))
    else .ok false
  | .int32CmpVar =>
    if !isNull step.leftIdx && !isNull step.rightIdx then
      .ok (step.cmpOp.holds
        (compare (chunk.int32 step.leftIdx row).toInt (chunk.int32 step.rightIdx row).toInt))
    else .ok false
  | .int64CmpVar =>
    if !isNull step.leftIdx && !isNull step.rightIdx then do
      let (l, r) ← C.int64Operands step (chunk.int64 step.leftIdx row)
        (chunk.int64 step.rightIdx row)
      return step.cmpOp.holds (compare l.toInt r.toInt)
    else .ok false
  | .stringEqConst | .stringNeConst =>
    if !isNull step.leftIdx then
      let eq := stringEqual ref lhs rhs step.constLen
      .ok (if step.op = .stringEqConst then eq else !eq)
    else .ok false
  | .stringPrefixLike =>
    if !isNull step.leftIdx then
      match rhs with
      | none => .ok false
      | some rhs =>
        let result := decide (step.constLen ≤ ref.len)
        if result && step.constLen != 0 then
          -- the first eight bytes are in the reference
          if step.constLen ≤ 8 then
            .ok (memcmpEq (pointerTo ref.prefixBytes) 0 rhs step.constLen)
          else .ok (lhs.any (memcmpEq · 0 rhs step.constLen))
        else .ok result
    else .ok false
  | .stringContainsLike =>
    if !isNull step.leftIdx then
      match rhs, lhs with
      | some rhs, some lhs =>
        let result := decide (step.constLen ≤ ref.len)
        if result then
          .ok (containsLoop lhs rhs step.constLen (ref.len + 1 - step.constLen) 0 result)
        else .ok result
      | _, _ => .ok false
    else .ok false
  | .stringSqlLike =>
    if !isNull step.leftIdx then
      .ok (C.matchPercentLike lhs ref.len rhs step.constLen)
    else .ok false
  | .boolAnd => .ok (regs step.leftIdx && regs step.rightIdx)
  | .boolOr => .ok (regs step.leftIdx || regs step.rightIdx)
  | .boolNot => .ok (!regs step.leftIdx)

/-- `EvalFilterStep`. -/
def Copy.evalFilterStep (C : Copy) (chunk : FilterChunk) (row : Nat)
    (stringConsts : Option ByteMemory) (regs : Regs) (step : Step) : Except String Regs := do
  let result ← C.stepResult chunk row stringConsts regs step
  return Function.update regs step.outBoolReg result

/-- The loop over the expressions. The end of the steps of an expression is a `uint16_t`. -/
def Copy.evalExprs (C : Copy) (chunk : FilterChunk) (row : Nat) (stringConsts : Option ByteMemory)
    (steps : List Step) (boolRegs : Nat) (rangeOverflow : String) :
    List FilterExprDesc → Regs → Except String Bool
  | [], _ => .ok true
  | expr :: exprs, regs =>
    let exprEnd := (expr.firstStepIdx + expr.nSteps) % 2 ^ 16
    if steps.length < exprEnd then .error rangeOverflow
    else do
      let regs ← (steps.extract expr.firstStepIdx exprEnd).foldlM
        (C.evalFilterStep chunk row stringConsts) regs
      if boolRegs ≤ expr.outputBoolReg || !regs expr.outputBoolReg then return false
      else C.evalExprs chunk row stringConsts steps boolRegs rangeOverflow exprs regs

/-- `RequiredFilterBoolRegs`, in a `uint16_t`. -/
def requiredBoolRegs (exprs : List FilterExprDesc) : Nat :=
  exprs.foldl (fun maxReg expr => max maxReg ((expr.outputBoolReg + 1) % 2 ^ 16)) 0

/-- `memset` of the first registers. -/
def clearRegs (n : Nat) (regs : Regs) : Regs := fun r => if r < n then false else regs r

/-! ## The short ways -/

/-- `IsSimpleFilterStep`. -/
def isSimpleFilterStep (exprs : List FilterExprDesc) (steps : List Step) : Option Step :=
  match exprs with
  | [expr] =>
    if expr.nSteps ≠ 1 then none
    else
      match steps[expr.firstStepIdx]? with
      | none => none
      | some step =>
        if expr.outputBoolReg ≠ step.outBoolReg then none
        else
          match step.op with
          | .int32CmpConst | .int64CmpConst | .int32CmpVar | .int64CmpVar | .stringEqConst
          | .stringNeConst | .stringPrefixLike | .stringContainsLike | .stringSqlLike => some step
          | .boolAnd | .boolOr | .boolNot => none
  | _ => none

/-- The loop of `STRING_CONTAINS_LIKE` in the short way, which returns at the first match. -/
def containsSearch (lhs rhs : ByteMemory) (n : Nat) : Nat → Nat → Bool
  | 0, _ => false
  | places + 1, start =>
    if memcmpEq lhs start rhs n then true else containsSearch lhs rhs n places (start + 1)

/-- `EvalSimpleFilterStep`. -/
def Copy.evalSimpleFilterStep (C : Copy) (chunk : FilterChunk) (row : Nat)
    (stringConsts : Option ByteMemory) (step : Step) : Except String Bool :=
  let isNull (idx : Nat) : Bool := chunk.nulls idx row
  let ref := chunk.string step.leftIdx row
  let lhs := chunk.stringPtr step.leftIdx row
  let rhs := resolveFilterConstPtr step stringConsts
  match step.op with
  | .int32CmpConst =>
    if isNull step.leftIdx then .ok false
    else .ok (step.cmpOp.holds
      (compare (chunk.int32 step.leftIdx row).toInt step.constInt32.toInt))
  | .int64CmpConst =>
    if isNull step.leftIdx then .ok false
    else .ok (step.cmpOp.holds
      (compare (chunk.int64 step.leftIdx row).toInt step.constInt64.toInt))
  | .int32CmpVar =>
    if isNull step.leftIdx || isNull step.rightIdx then .ok false
    else .ok (step.cmpOp.holds
      (compare (chunk.int32 step.leftIdx row).toInt (chunk.int32 step.rightIdx row).toInt))
  | .int64CmpVar =>
    if isNull step.leftIdx || isNull step.rightIdx then .ok false
    else do
      let (l, r) ← C.int64Operands step (chunk.int64 step.leftIdx row)
        (chunk.int64 step.rightIdx row)
      return step.cmpOp.holds (compare l.toInt r.toInt)
  | .stringEqConst | .stringNeConst =>
    if isNull step.leftIdx then .ok false
    else
      let eq := stringEqual ref lhs rhs step.constLen
      .ok (if step.op = .stringEqConst then eq else !eq)
  | .stringPrefixLike =>
    if isNull step.leftIdx then .ok false
    else
      match rhs with
      | none => .ok false
      | some rhs =>
        if ref.len < step.constLen then .ok false
        else if step.constLen = 0 then .ok true
        else if step.constLen ≤ 8 then
          .ok (memcmpEq (pointerTo ref.prefixBytes) 0 rhs step.constLen)
        else .ok (lhs.any (memcmpEq · 0 rhs step.constLen))
  | .stringContainsLike =>
    if isNull step.leftIdx then .ok false
    else
      match rhs, lhs with
      | some rhs, some lhs =>
        if ref.len < step.constLen then .ok false
        else .ok (containsSearch lhs rhs step.constLen (ref.len + 1 - step.constLen) 0)
      | _, _ => .ok false
  | .stringSqlLike =>
    if isNull step.leftIdx then .ok false
    else .ok (C.matchPercentLike lhs ref.len rhs step.constLen)
  | .boolAnd | .boolOr | .boolNot => .ok false

/-! ## The operators -/

/-- A filter program without its inputs. -/
structure Program where
  exprs : List FilterExprDesc
  steps : List Step
  stringConsts : Option ByteMemory

/-- The general way on a row: as many registers are cleared as the expressions need. -/
def Copy.evalGeneral (C : Copy) (prog : Program) (chunk : FilterChunk) (row boolRegs : Nat)
    (rangeOverflow : String) (regs : Regs) : Except String Bool :=
  C.evalExprs chunk row prog.stringConsts prog.steps boolRegs rangeOverflow prog.exprs
    (clearRegs (requiredBoolRegs prog.exprs) regs)

/-- `physical_filter.cpp`: inputs that are no scaled numerics keep their values. -/
def filterCopy (inputs : List FilterInputDesc) : Copy where
  numericScale i := (inputs[i]?.filter (·.decodeKind == .int64NumericScaled)).map (·.numericScale)
  rescaleFailed := "pg_yaap: filter numeric compare rescale failed"
  matchPercentLike := matchPattern

/-- `EvalSimpleFilterStepAtRow`. -/
def evalSimpleFilterStepAtRow (inputs : List FilterInputDesc) (prog : Program) (step : Step)
    (chunk : FilterChunk) (row : Nat) : Except String Bool :=
  (filterCopy inputs).evalSimpleFilterStep chunk row prog.stringConsts step

/-- The general way of `PhysicalFilter::Execute`, with `EvalFilterStepAtRow`. -/
def evalFilterAtRow (inputs : List FilterInputDesc) (prog : Program) (chunk : FilterChunk)
    (row : Nat) (regs : Regs) : Except String Bool :=
  (filterCopy inputs).evalGeneral prog chunk row filterMaxBoolRegs
    "pg_yaap: filter expression step range overflow" regs

/-- `physical_seq_scan.cpp`: the scan compares the integers as they are. -/
def scanCopy : Copy where
  numericScale _ := none
  rescaleFailed := ""
  matchPercentLike := matchPatternToEnd

/-- `EvalSimpleFilterStep`: the deformer leaves the row of the scan in row zero. -/
def evalSimpleScanFilter (prog : Program) (step : Step) (chunk : FilterChunk) :
    Except String Bool :=
  scanCopy.evalSimpleFilterStep chunk 0 prog.stringConsts step

/-- The general way of `PhysicalSeqScan::GetData`, with the registers of its descriptor. -/
def evalScanFilter (prog : Program) (filterBoolRegs : Nat) (chunk : FilterChunk) (regs : Regs) :
    Except String Bool :=
  scanCopy.evalGeneral prog chunk 0 filterBoolRegs
    "pg_yaap: filter expression step range overflow" regs

/-! ## The filter of the join -/

/-- `HashJoinFilterInputDesc`. -/
structure HashJoinFilterInputDesc where
  side : HashJoinProbe.HashJoinOutputSide
  inputChunkSlot : Nat
  decodeKind : HashJoinProbe.ColumnDecodeKind
  sourceDecodeKind : HashJoinProbe.ColumnDecodeKind
  numericScale : Nat

/-- The pair of rows a join filter looks at: a row of the probe chunk, and a stored row of the
build side with its layout. -/
structure RowPair where
  probeChunk : DataChunk
  probeRowIdx : Nat
  buildLayout : TupleDataLayout
  buildRows : TupleDataCollection
  buildRowIdx : Nat

/-- The four bytes at a column of the build row. -/
def RowPair.buildInt32 (pair : RowPair) (col : TdcPlacedColumn) : Int32 :=
  (UInt32.ofNat (ByteMemory.decode
    (pair.buildRows.rows.read (pair.buildRows.getRow pair.buildRowIdx + col.offset) 4))).toInt32

/-- The eight bytes at a column of the build row. -/
def RowPair.buildBytes (pair : RowPair) (col : TdcPlacedColumn) : UInt64 :=
  UInt64.ofNat (ByteMemory.decode
    (pair.buildRows.rows.read (pair.buildRows.getRow pair.buildRowIdx + col.offset) 8))

/-- The string at a column of the build row. -/
def RowPair.buildString (pair : RowPair) (col : TdcPlacedColumn) : List UInt8 :=
  (pair.buildRows.stringRef pair.buildRowIdx col).data pair.buildRows.rows pair.buildRows.heap

/-- `FindRightColumnBySlotAndKind`; `none` stands for a null pointer. -/
def findRightColumn (layout : TupleDataLayout) (slot : Nat)
    (decodeKind : HashJoinProbe.ColumnDecodeKind) : Except String (Option TdcPlacedColumn) :=
  match decodeKind.toTdcKind with
  | none => .error "pg_yaap: invalid hash join right payload decode kind %u"
  | some kind => .ok (layout.columns.find? fun col => col.srcColIdx == slot && col.kind == kind)

/-- `ReadPromotedFilterInt64FromProbe`. -/
def RowPair.promotedFromProbe (pair : RowPair) (input : HashJoinFilterInputDesc) : Option Int64 :=
  match input.sourceDecodeKind with
  | .int32Char | .int32Date | .int32Int4 =>
    some (pair.probeChunk.getInt32 input.inputChunkSlot pair.probeRowIdx).toInt64
  | .int64Int8 | .int64NumericScaled =>
    some (pair.probeChunk.getInt64 input.inputChunkSlot pair.probeRowIdx)
  | _ => none

/-- `ReadPromotedFilterInt64FromBuild`. -/
def RowPair.promotedFromBuild (pair : RowPair) (input : HashJoinFilterInputDesc)
    (col : TdcPlacedColumn) : Option Int64 :=
  match input.sourceDecodeKind with
  | .int32Char | .int32Date | .int32Int4 => some (pair.buildInt32 col).toInt64
  | .int64Int8 | .int64NumericScaled => some (pair.buildBytes col).toInt64
  | _ => none

/-- The value `PopulateJoinFilterChunk` finds for an input of the left side. -/
def RowPair.leftValue (pair : RowPair) (input : HashJoinFilterInputDesc) : Except String Datum :=
  let slot := input.inputChunkSlot
  match input.decodeKind with
  | .int32Char | .int32Date | .int32Int4 =>
    .ok (.int32 (pair.probeChunk.getInt32 slot pair.probeRowIdx))
  | .int64Int8 | .int64NumericScaled =>
    match pair.promotedFromProbe input with
    | some v => .ok (.int64 v)
    | none => .error "pg_yaap: unsupported LEFT promoted hash join filter decode kind %u->%u"
  | .doubleFloat8 => .ok (.double (pair.probeChunk.getDouble slot pair.probeRowIdx))
  | .stringRef => .ok (.stringRef (pair.probeChunk.getString slot pair.probeRowIdx))
  | .none => .error "pg_yaap: invalid LEFT hash join filter decode kind NONE"

/-- The value `PopulateJoinFilterChunk` finds for an input of the right side, in a column. -/
def RowPair.rightValue (pair : RowPair) (input : HashJoinFilterInputDesc) (col : TdcPlacedColumn) :
    Except String Datum :=
  match input.decodeKind with
  | .int32Char | .int32Date | .int32Int4 => .ok (.int32 (pair.buildInt32 col))
  | .int64Int8 | .int64NumericScaled =>
    match pair.promotedFromBuild input col with
    | some v => .ok (.int64 v)
    | none => .error "pg_yaap: unsupported RIGHT promoted hash join filter decode kind %u->%u"
  | .doubleFloat8 => .ok (.double (pair.buildBytes col))
  | .stringRef => .ok (.stringRef (pair.buildString col))
  | .none => .error "pg_yaap: invalid RIGHT hash join filter decode kind NONE"

/-- The value `PopulateJoinFilterChunk` finds for an input. -/
def RowPair.inputValue (pair : RowPair) (input : HashJoinFilterInputDesc) : Except String Datum :=
  match input.side with
  | .left => pair.leftValue input
  | .right => do
    match ← findRightColumn pair.buildLayout input.inputChunkSlot input.sourceDecodeKind with
    | none => .error "pg_yaap: hash join filter mapping missing right payload column"
    | some col => pair.rightValue input col

/-- A column with the value of row zero in one slot set. -/
def setFirst {α : Type} (columns : Nat → Nat → α) (slot : Nat) (v : α) : Nat → Nat → α :=
  Function.update columns slot (Function.update (columns slot) 0 v)

/-- The reference `store_string_bytes` makes, with the length of the arena before. -/
def storedRef (bytes : List UInt8) (arenaLength : Nat) : VecStringRef where
  len := bytes.length
  offset :=
    if bytes = [] then 0 else if bytes.length ≤ 8 then VecStringRef.inlineOffset else arenaLength
  prefixBytes := stringPrefix bytes

/-- A value put into a slot of row zero; a string goes through `store_string_bytes`, and no step
reads a double. -/
def FilterChunk.put (chunk : FilterChunk) (slot : Nat) : Datum → Except String FilterChunk
  | .int32 v => .ok { chunk with int32 := setFirst chunk.int32 slot v }
  | .int64 v => .ok { chunk with int64 := setFirst chunk.int64 slot v }
  | .double _ => .ok chunk
  | .stringRef bytes =>
    if 65536 < bytes.length then
      .error "pg_yaap suspicious string length %u while materializing DataChunk"
    else
      .ok { chunk with
        string := setFirst chunk.string slot (storedRef bytes chunk.arena.length)
        arena := if bytes.length ≤ 8 then chunk.arena else chunk.arena ++ bytes }

/-- The loop of `PopulateJoinFilterChunk`: the value of an input stands in the slot of its
number, and its NULL flag is cleared. -/
def RowPair.populateFrom (pair : RowPair) :
    Nat → List HashJoinFilterInputDesc → FilterChunk → Except String FilterChunk
  | _, [], chunk => .ok chunk
  | i, input :: inputs, chunk => do
    let v ← pair.inputValue input
    let chunk ← { chunk with nulls := setFirst chunk.nulls i false }.put i v
    pair.populateFrom (i + 1) inputs chunk

/-- `PopulateJoinFilterChunk`, into a chunk with what an earlier pair left there. -/
def RowPair.populate (pair : RowPair) (inputs : List HashJoinFilterInputDesc)
    (chunk : FilterChunk) : Except String FilterChunk :=
  pair.populateFrom 0 inputs { chunk with arena := [] }

/-- `physical_hash_join.cpp`: scaled numerics are brought to one scale, as in the filter. -/
def joinCopy (inputs : List HashJoinFilterInputDesc) : Copy where
  numericScale i := (inputs[i]?.filter (·.decodeKind == .int64NumericScaled)).map (·.numericScale)
  rescaleFailed := "pg_yaap: hash join numeric filter rescale failed"
  matchPercentLike := matchPatternToEnd

/-- `EvaluateJoinFilter`. -/
def evaluateJoinFilter (inputs : List HashJoinFilterInputDesc) (prog : Program) (pair : RowPair)
    (chunk : FilterChunk) (regs : Regs) : Except String Bool :=
  if inputs = [] ∨ prog.exprs = [] ∨ prog.steps = [] then .ok true
  else do
    let chunk ← pair.populate inputs chunk
    (joinCopy inputs).evalGeneral prog chunk 0 (requiredBoolRegs prog.exprs)
      "pg_yaap: hash join filter expr step range out of bounds" regs

/-- `SimpleJoinFilterInputRef`: an input of the right side has its column. -/
structure SimpleJoinFilterInputRef where
  input : HashJoinFilterInputDesc
  rightCol : Option TdcPlacedColumn

/-- `SimpleJoinFilterSpec`. -/
structure SimpleJoinFilterSpec where
  op : StepOp
  cmpOp : QualOp
  left : SimpleJoinFilterInputRef
  right : SimpleJoinFilterInputRef

/-- `IsSimpleInt32JoinFilterInput`. -/
def isSimpleInt32JoinFilterInput (input : HashJoinFilterInputDesc) : Bool :=
  input.decodeKind == input.sourceDecodeKind &&
    (input.decodeKind == .int32Char || input.decodeKind == .int32Date ||
      input.decodeKind == .int32Int4)

/-- `IsSimpleInt64JoinFilterInput`. -/
def isSimpleInt64JoinFilterInput (input : HashJoinFilterInputDesc) : Bool :=
  input.decodeKind == input.sourceDecodeKind &&
    (input.decodeKind == .int64Int8 || input.decodeKind == .int64NumericScaled)

/-- Whether two inputs are of a kind a step compares as they are stored. -/
def comparedAsStored (op : StepOp) (left right : HashJoinFilterInputDesc) : Bool :=
  match op with
  | .int32CmpVar => isSimpleInt32JoinFilterInput left && isSimpleInt32JoinFilterInput right
  | .int64CmpVar =>
    isSimpleInt64JoinFilterInput left && isSimpleInt64JoinFilterInput right &&
      !(left.decodeKind == .int64NumericScaled && right.decodeKind == .int64NumericScaled &&
        left.numericScale != right.numericScale)
  | _ => false

/-- An input of the specification: one of the right side needs its column. -/
def simpleInputRef (layout : TupleDataLayout) (input : HashJoinFilterInputDesc) :
    Except String (Option SimpleJoinFilterInputRef) :=
  match input.side with
  | .left => .ok (some ⟨input, none⟩)
  | .right => do
    match ← findRightColumn layout input.inputChunkSlot input.sourceDecodeKind with
    | none => return none
    | some col => return some ⟨input, some col⟩

/-- `TryBuildSimpleJoinFilterSpec`; `none` stands for `false`. -/
def tryBuildSimpleJoinFilterSpec (inputs : List HashJoinFilterInputDesc) (prog : Program)
    (layout : TupleDataLayout) : Except String (Option SimpleJoinFilterSpec) :=
  match prog.exprs, prog.steps with
  | [expr], [step] =>
    if expr.firstStepIdx ≠ 0 ∨ expr.nSteps ≠ 1 ∨ step.outBoolReg ≠ expr.outputBoolReg then .ok none
    else
      match inputs[step.leftIdx]?, inputs[step.rightIdx]? with
      | some leftInput, some rightInput =>
        if leftInput.side = rightInput.side then .ok none
        else if !comparedAsStored step.op leftInput rightInput then .ok none
        else do
          match ← simpleInputRef layout leftInput with
          | none => return none
          | some left =>
            match ← simpleInputRef layout rightInput with
            | none => return none
            | some right => return some ⟨step.op, step.cmpOp, left, right⟩
      | _, _ => .ok none
  | _, _ => .ok none

/-- `ReadSimpleJoinFilterInt32`. -/
def RowPair.readSimpleInt32 (pair : RowPair) (ref : SimpleJoinFilterInputRef) :
    Except String Int32 :=
  match ref.input.side, ref.rightCol with
  | .left, _ => .ok (pair.probeChunk.getInt32 ref.input.inputChunkSlot pair.probeRowIdx)
  | .right, none => .error "pg_yaap: simple hash join filter build input missing"
  | .right, some col => .ok (pair.buildInt32 col)

/-- `ReadSimpleJoinFilterInt64`. -/
def RowPair.readSimpleInt64 (pair : RowPair) (ref : SimpleJoinFilterInputRef) :
    Except String Int64 :=
  match ref.input.side, ref.rightCol with
  | .left, _ => .ok (pair.probeChunk.getInt64 ref.input.inputChunkSlot pair.probeRowIdx)
  | .right, none => .error "pg_yaap: simple hash join filter build input missing"
  | .right, some col => .ok (pair.buildBytes col).toInt64

/-- `EvaluateSimpleJoinFilter`. -/
def evaluateSimpleJoinFilter (spec : SimpleJoinFilterSpec) (pair : RowPair) :
    Except String Bool :=
  if spec.op = .int32CmpVar then do
    let l ← pair.readSimpleInt32 spec.left
    let r ← pair.readSimpleInt32 spec.right
    return spec.cmpOp.holds (compare l.toInt r.toInt)
  else do
    let l ← pair.readSimpleInt64 spec.left
    let r ← pair.readSimpleInt64 spec.right
    return spec.cmpOp.holds (compare l.toInt r.toInt)

/-! ## A test needs no registers -/

section Tests

variable (C : Copy) (chunk : FilterChunk) (row : Nat) (stringConsts : Option ByteMemory)

/-- Behind the first place, and before it when there is one, the loop knows no more than the
search. -/
theorem containsLoop_eq (lhs rhs : ByteMemory) (n : Nat) :
    ∀ (places start : Nat) (result : Bool), (places = 0 → result = false) →
      containsLoop lhs rhs n places start result = containsSearch lhs rhs n places start
  | 0, _, result, h => h rfl
  | places + 1, start, result, _ => by
    rw [containsLoop, containsSearch, containsLoop_eq lhs rhs n places (start + 1) false fun _ => rfl]

theorem stepResult_contains (regs : Regs) {step : Step} (hop : step.op = .stringContainsLike) :
    C.stepResult chunk row stringConsts regs step =
      C.evalSimpleFilterStep chunk row stringConsts step := by
  simp only [Copy.stepResult, Copy.evalSimpleFilterStep, hop]
  by_cases hnull : chunk.nulls step.leftIdx row = true
  · simp [hnull]
  cases resolveFilterConstPtr step stringConsts with
  | none => simp [hnull]
  | some rhs =>
    cases chunk.stringPtr step.leftIdx row with
    | none => simp [hnull]
    | some lhs =>
      by_cases hlen : step.constLen ≤ (chunk.string step.leftIdx row).len
      · have hplaces : (chunk.string step.leftIdx row).len + 1 - step.constLen ≠ 0 := by omega
        simp [hnull, hlen, Nat.not_lt.2 hlen, containsLoop_eq lhs rhs step.constLen _ 0 true
          fun h => absurd h hplaces]
      · simp [hnull, hlen, Nat.lt_of_not_le hlen]

theorem stepResult_prefix (regs : Regs) {step : Step} (hop : step.op = .stringPrefixLike) :
    C.stepResult chunk row stringConsts regs step =
      C.evalSimpleFilterStep chunk row stringConsts step := by
  simp only [Copy.stepResult, Copy.evalSimpleFilterStep, hop]
  by_cases hnull : chunk.nulls step.leftIdx row = true
  · simp [hnull]
  cases resolveFilterConstPtr step stringConsts with
  | none => simp [hnull]
  | some rhs =>
    by_cases hlen : step.constLen ≤ (chunk.string step.leftIdx row).len
    · by_cases hzero : step.constLen = 0
      · simp [hnull, hzero]
      · simp [hnull, hlen, Nat.not_lt.2 hlen, hzero]
    · simp [hnull, hlen, Nat.lt_of_not_le hlen]

/-- **The answer of a test is what the short way computes**, whatever the registers hold. -/
theorem stepResult_eq (regs : Regs) {step : Step}
    (hop : step.op ≠ .boolAnd ∧ step.op ≠ .boolOr ∧ step.op ≠ .boolNot) :
    C.stepResult chunk row stringConsts regs step =
      C.evalSimpleFilterStep chunk row stringConsts step := by
  cases h : step.op with
  | stringContainsLike => exact stepResult_contains C chunk row stringConsts regs h
  | stringPrefixLike => exact stepResult_prefix C chunk row stringConsts regs h
  | boolAnd => exact absurd h hop.1
  | boolOr => exact absurd h hop.2.1
  | boolNot => exact absurd h hop.2.2
  | int32CmpConst | int64CmpConst | stringEqConst | stringNeConst | stringSqlLike =>
    simp only [Copy.stepResult, Copy.evalSimpleFilterStep, h]
    by_cases hnull : chunk.nulls step.leftIdx row = true
    · simp [hnull]
    · simp [hnull]
  | int32CmpVar | int64CmpVar =>
    simp only [Copy.stepResult, Copy.evalSimpleFilterStep, h]
    by_cases hleft : chunk.nulls step.leftIdx row = true
    · simp [hleft]
    · by_cases hright : chunk.nulls step.rightIdx row = true
      · simp [hright]
      · simp [hleft, hright]

/-- What `IsSimpleFilterStep` accepts: one expression of one step, which is a test and writes the
register of the expression. -/
theorem isSimpleFilterStep_eq_some {exprs : List FilterExprDesc} {steps : List Step} {step : Step}
    (h : isSimpleFilterStep exprs steps = some step) :
    ∃ expr, exprs = [expr] ∧ expr.nSteps = 1 ∧ steps[expr.firstStepIdx]? = some step ∧
      expr.outputBoolReg = step.outBoolReg ∧
      (step.op ≠ .boolAnd ∧ step.op ≠ .boolOr ∧ step.op ≠ .boolNot) := by
  unfold isSimpleFilterStep at h
  split at h
  · rename_i expr
    split_ifs at h with hsteps
    split at h
    · cases h
    · rename_i first hfirst
      split_ifs at h with hreg
      have hop : first.op ≠ .boolAnd ∧ first.op ≠ .boolOr ∧ first.op ≠ .boolNot ∧
          some first = some step := by
        split at h <;> simp_all
      obtain rfl := Option.some.inj hop.2.2.2
      exact ⟨expr, rfl, not_not.1 hsteps, hfirst, not_not.1 hreg, hop.1, hop.2.1, hop.2.2.1⟩
  · cases h

/-- The general way through an expression of one test. -/
theorem evalExprs_single {steps : List Step} {boolRegs : Nat} (rangeOverflow : String)
    {expr : FilterExprDesc} {step : Step} (regs : Regs) (hlen : steps.length < 2 ^ 16)
    (hsteps : expr.nSteps = 1) (hstep : steps[expr.firstStepIdx]? = some step)
    (hreg : expr.outputBoolReg = step.outBoolReg) (hregs : expr.outputBoolReg < boolRegs)
    (hop : step.op ≠ .boolAnd ∧ step.op ≠ .boolOr ∧ step.op ≠ .boolNot) :
    C.evalExprs chunk row stringConsts steps boolRegs rangeOverflow [expr] regs =
      C.evalSimpleFilterStep chunk row stringConsts step := by
  obtain ⟨hfirst, hget⟩ := List.getElem?_eq_some_iff.1 hstep
  have hend : (expr.firstStepIdx + expr.nSteps) % 2 ^ 16 = expr.firstStepIdx + 1 := by
    rw [hsteps]
    exact Nat.mod_eq_of_lt (by omega)
  have hone : steps.extract expr.firstStepIdx (expr.firstStepIdx + 1) = [step] := by
    rw [List.extract_eq_take_drop, Nat.add_sub_cancel_left, List.drop_eq_getElem_cons hfirst, hget]
    rfl
  rw [Copy.evalExprs, hend, if_neg (by omega), hone, List.foldlM_cons, Copy.evalFilterStep,
    stepResult_eq C chunk row stringConsts regs hop]
  cases C.evalSimpleFilterStep chunk row stringConsts step with
  | error e => rfl
  | ok result =>
    show (if boolRegs ≤ expr.outputBoolReg ||
      !(Function.update regs step.outBoolReg result) expr.outputBoolReg then _ else _) = _
    rw [hreg, Function.update_self]
    have hle : ¬boolRegs ≤ step.outBoolReg := by omega
    cases result with
    | true => simp [hle, Copy.evalExprs]
    | false => simp [hle]; rfl

/-- **One test by the interpreter and by the short way**, in any copy. -/
theorem evalGeneral_simple {prog : Program} {boolRegs : Nat} (rangeOverflow : String) (regs : Regs)
    {step : Step} (hlen : prog.steps.length < 2 ^ 16)
    (hsimple : isSimpleFilterStep prog.exprs prog.steps = some step)
    (hregs : step.outBoolReg < boolRegs) :
    C.evalGeneral prog chunk row boolRegs rangeOverflow regs =
      C.evalSimpleFilterStep chunk row prog.stringConsts step := by
  obtain ⟨expr, hexprs, hsteps, hstep, hreg, hop⟩ := isSimpleFilterStep_eq_some hsimple
  rw [Copy.evalGeneral, hexprs]
  exact evalExprs_single C chunk row prog.stringConsts rangeOverflow _ hlen hsteps hstep hreg
    (by omega) hop

end Tests

/-! ## The chunk of the join -/

section Populate

variable {pair : RowPair} {chunk chunk' : FilterChunk} {slot : Nat} {v : Datum}

@[simp] theorem setFirst_self {α : Type} (columns : Nat → Nat → α) (slot : Nat) (v : α) :
    setFirst columns slot v slot 0 = v := by
  simp [setFirst]

@[simp] theorem setFirst_of_ne {α : Type} (columns : Nat → Nat → α) {slot j : Nat} (v : α)
    (h : j ≠ slot) : setFirst columns slot v j = columns j :=
  Function.update_of_ne h _ _

/-- A slot of row zero has an integer and no NULL flag. -/
def FilterChunk.HasInt (chunk : FilterChunk) (slot : Nat) (v : Datum) : Prop :=
  chunk.nulls slot 0 = false ∧
    match v with
    | .int32 x => chunk.int32 slot 0 = x
    | .int64 x => chunk.int64 slot 0 = x
    | _ => True

/-- Two chunks have the same flags and integers in a slot. -/
structure SameSlot (chunk chunk' : FilterChunk) (slot : Nat) : Prop where
  nulls : chunk'.nulls slot = chunk.nulls slot
  int32 : chunk'.int32 slot = chunk.int32 slot
  int64 : chunk'.int64 slot = chunk.int64 slot

theorem SameSlot.hasInt (h : SameSlot chunk chunk' slot) (hv : chunk.HasInt slot v) :
    chunk'.HasInt slot v := by
  refine ⟨by rw [h.nulls]; exact hv.1, ?_⟩
  cases v with
  | int32 x =>
    show chunk'.int32 slot 0 = x
    rw [h.int32]
    exact hv.2
  | int64 x =>
    show chunk'.int64 slot 0 = x
    rw [h.int64]
    exact hv.2
  | double bits => trivial
  | stringRef bytes => trivial

theorem put_hasInt (h : chunk.put slot v = .ok chunk') (hnull : chunk.nulls slot 0 = false) :
    chunk'.HasInt slot v := by
  cases v with
  | int32 x =>
    obtain rfl := Except.ok.inj h
    exact ⟨hnull, setFirst_self _ _ _⟩
  | int64 x =>
    obtain rfl := Except.ok.inj h
    exact ⟨hnull, setFirst_self _ _ _⟩
  | double bits =>
    obtain rfl := Except.ok.inj h
    exact ⟨hnull, trivial⟩
  | stringRef bytes =>
    rw [FilterChunk.put] at h
    by_cases hlong : 65536 < bytes.length
    · rw [if_pos hlong] at h
      cases h
    · rw [if_neg hlong] at h
      obtain rfl := Except.ok.inj h
      exact ⟨hnull, trivial⟩

theorem put_sameSlot (h : chunk.put slot v = .ok chunk') {j : Nat} (hj : j ≠ slot) :
    SameSlot chunk chunk' j := by
  cases v with
  | int32 x =>
    obtain rfl := Except.ok.inj h
    exact ⟨rfl, setFirst_of_ne _ _ hj, rfl⟩
  | int64 x =>
    obtain rfl := Except.ok.inj h
    exact ⟨rfl, rfl, setFirst_of_ne _ _ hj⟩
  | double bits =>
    obtain rfl := Except.ok.inj h
    exact ⟨rfl, rfl, rfl⟩
  | stringRef bytes =>
    rw [FilterChunk.put] at h
    by_cases hlong : 65536 < bytes.length
    · rw [if_pos hlong] at h
      cases h
    · rw [if_neg hlong] at h
      obtain rfl := Except.ok.inj h
      exact ⟨rfl, rfl, rfl⟩

/-- One turn of the loop. -/
theorem populateFrom_cons {i : Nat} {input : HashJoinFilterInputDesc}
    {inputs : List HashJoinFilterInputDesc}
    (h : pair.populateFrom i (input :: inputs) chunk = .ok chunk') :
    ∃ v mid, pair.inputValue input = .ok v ∧
      { chunk with nulls := setFirst chunk.nulls i false }.put i v = .ok mid ∧
      pair.populateFrom (i + 1) inputs mid = .ok chunk' := by
  rw [RowPair.populateFrom] at h
  cases hv : pair.inputValue input with
  | error e => rw [hv] at h; cases h
  | ok v =>
    rw [hv] at h
    cases hmid : { chunk with nulls := setFirst chunk.nulls i false }.put i v with
    | error e =>
      replace h : ({ chunk with nulls := setFirst chunk.nulls i false }.put i v >>= fun chunk =>
        pair.populateFrom (i + 1) inputs chunk) = .ok chunk' := h
      rw [hmid] at h
      cases h
    | ok mid =>
      replace h : ({ chunk with nulls := setFirst chunk.nulls i false }.put i v >>= fun chunk =>
        pair.populateFrom (i + 1) inputs chunk) = .ok chunk' := h
      rw [hmid] at h
      exact ⟨v, mid, rfl, hmid, h⟩

/-- The loop leaves the slots before it alone. -/
theorem populateFrom_sameSlot {inputs : List HashJoinFilterInputDesc} {i : Nat}
    (h : pair.populateFrom i inputs chunk = .ok chunk') {j : Nat} (hj : j < i) :
    SameSlot chunk chunk' j := by
  induction inputs generalizing i chunk with
  | nil =>
    obtain rfl := Except.ok.inj h
    exact ⟨rfl, rfl, rfl⟩
  | cons input inputs ih =>
    obtain ⟨v, mid, -, hmid, hrest⟩ := populateFrom_cons h
    have hput := put_sameSlot hmid (Nat.ne_of_lt hj)
    have htail := ih hrest (Nat.lt_succ_of_lt hj)
    exact ⟨htail.nulls.trans (hput.nulls.trans (setFirst_of_ne _ _ (Nat.ne_of_lt hj))),
      htail.int32.trans hput.int32, htail.int64.trans hput.int64⟩

/-- **Every input stands in the slot of its number.** -/
theorem populateFrom_hasInt {inputs : List HashJoinFilterInputDesc} {i : Nat}
    (h : pair.populateFrom i inputs chunk = .ok chunk') {k : Nat} {input : HashJoinFilterInputDesc}
    (hk : inputs[k]? = some input) :
    ∃ v, pair.inputValue input = .ok v ∧ chunk'.HasInt (i + k) v := by
  induction inputs generalizing i chunk k with
  | nil => cases hk
  | cons first inputs ih =>
    obtain ⟨v, mid, hv, hmid, hrest⟩ := populateFrom_cons h
    cases k with
    | zero =>
      obtain rfl := Option.some.inj hk
      have hput := put_hasInt hmid (setFirst_self _ _ _)
      exact ⟨v, hv, (populateFrom_sameSlot hrest (Nat.lt_succ_self i)).hasInt hput⟩
    | succ k =>
      obtain ⟨w, hw, hhas⟩ := ih hrest hk
      exact ⟨w, hw, by rw [← Nat.add_right_comm, Nat.add_assoc] at hhas; exact hhas⟩

/-- Integers are put into a chunk without an error. -/
theorem populateFrom_of_ints {inputs : List HashJoinFilterInputDesc} (i : Nat)
    (chunk : FilterChunk) (h : ∀ input ∈ inputs,
      (∃ x, pair.inputValue input = .ok (.int32 x)) ∨ ∃ x, pair.inputValue input = .ok (.int64 x)) :
    ∃ chunk', pair.populateFrom i inputs chunk = .ok chunk' := by
  induction inputs generalizing i chunk with
  | nil => exact ⟨chunk, rfl⟩
  | cons input inputs ih =>
    rw [RowPair.populateFrom]
    rcases h input List.mem_cons_self with ⟨x, hx⟩ | ⟨x, hx⟩
    · rw [hx]
      exact ih (i + 1) _ fun other hother => h other (List.mem_cons_of_mem input hother)
    · rw [hx]
      exact ih (i + 1) _ fun other hother => h other (List.mem_cons_of_mem input hother)

end Populate

/-! ## The short way of the join -/

section Join

variable {inputs : List HashJoinFilterInputDesc} {prog : Program} {pair : RowPair}
variable {input : HashJoinFilterInputDesc} {ref : SimpleJoinFilterInputRef}

/-- The reference to an input: the side says whether it has a column. -/
theorem simpleInputRef_eq (h : simpleInputRef pair.buildLayout input = .ok (some ref)) :
    ref.input = input ∧ (input.side = .left ∨ input.side = .right ∧ ∃ col, ref.rightCol = some col ∧
      findRightColumn pair.buildLayout input.inputChunkSlot input.sourceDecodeKind =
        .ok (some col)) := by
  rw [simpleInputRef] at h
  cases hside : input.side with
  | left =>
    rw [hside] at h
    obtain rfl := Option.some.inj (Except.ok.inj h)
    exact ⟨rfl, Or.inl rfl⟩
  | right =>
    rw [hside] at h
    cases hcol : findRightColumn pair.buildLayout input.inputChunkSlot input.sourceDecodeKind with
    | error e => rw [hcol] at h; cases h
    | ok col =>
      rw [hcol] at h
      cases col with
      | none => cases h
      | some col =>
        obtain rfl := Option.some.inj (Except.ok.inj h)
        exact ⟨rfl, Or.inr ⟨rfl, col, rfl, rfl⟩⟩

/-- A 32-bit input that is not promoted is read as it is put into the chunk. -/
theorem readSimpleInt32_eq (h : simpleInputRef pair.buildLayout input = .ok (some ref))
    (hkind : isSimpleInt32JoinFilterInput input = true) :
    ∃ x, pair.inputValue input = .ok (.int32 x) ∧ pair.readSimpleInt32 ref = .ok x := by
  obtain ⟨rfl, hside⟩ := simpleInputRef_eq h
  simp only [isSimpleInt32JoinFilterInput, Bool.and_eq_true, Bool.or_eq_true, beq_iff_eq] at hkind
  rcases hside with hleft | ⟨hright, col, hcol, hfind⟩
  · refine ⟨_, ?_, by rw [RowPair.readSimpleInt32, hleft]⟩
    rw [RowPair.inputValue, hleft]
    show pair.leftValue ref.input = _
    rcases hkind.2 with (hk | hk) | hk <;> rw [RowPair.leftValue, hk]
  · refine ⟨_, ?_, by rw [RowPair.readSimpleInt32, hright, hcol]⟩
    rw [RowPair.inputValue, hright, hfind]
    show pair.rightValue ref.input col = _
    rcases hkind.2 with (hk | hk) | hk <;> rw [RowPair.rightValue, hk]

/-- A 64-bit input that is not promoted is read as it is put into the chunk. -/
theorem readSimpleInt64_eq (h : simpleInputRef pair.buildLayout input = .ok (some ref))
    (hkind : isSimpleInt64JoinFilterInput input = true) :
    ∃ x, pair.inputValue input = .ok (.int64 x) ∧ pair.readSimpleInt64 ref = .ok x := by
  obtain ⟨rfl, hside⟩ := simpleInputRef_eq h
  simp only [isSimpleInt64JoinFilterInput, Bool.and_eq_true, Bool.or_eq_true, beq_iff_eq] at hkind
  obtain ⟨hsource, hkind⟩ := hkind
  rcases hside with hleft | ⟨hright, col, hcol, hfind⟩
  · refine ⟨_, ?_, by rw [RowPair.readSimpleInt64, hleft]⟩
    rw [RowPair.inputValue, hleft]
    show pair.leftValue ref.input = _
    rcases hkind with hk | hk
    · rw [RowPair.leftValue, hk, RowPair.promotedFromProbe, ← hsource, hk]
    · rw [RowPair.leftValue, hk, RowPair.promotedFromProbe, ← hsource, hk]
  · refine ⟨_, ?_, by rw [RowPair.readSimpleInt64, hright, hcol]⟩
    rw [RowPair.inputValue, hright, hfind]
    show pair.rightValue ref.input col = _
    rcases hkind with hk | hk
    · rw [RowPair.rightValue, hk, RowPair.promotedFromBuild, ← hsource, hk]
    · rw [RowPair.rightValue, hk, RowPair.promotedFromBuild, ← hsource, hk]

/-- What `TryBuildSimpleJoinFilterSpec` accepts. -/
structure Accepted (inputs : List HashJoinFilterInputDesc) (prog : Program)
    (layout : TupleDataLayout) (spec : SimpleJoinFilterSpec) (expr : FilterExprDesc) (step : Step)
    (left right : HashJoinFilterInputDesc) : Prop where
  exprs : prog.exprs = [expr]
  steps : prog.steps = [step]
  first : expr.firstStepIdx = 0
  count : expr.nSteps = 1
  register : step.outBoolReg = expr.outputBoolReg
  leftInput : inputs[step.leftIdx]? = some left
  rightInput : inputs[step.rightIdx]? = some right
  stored : comparedAsStored step.op left right = true
  op : spec.op = step.op
  cmpOp : spec.cmpOp = step.cmpOp
  leftRef : simpleInputRef layout left = .ok (some spec.left)
  rightRef : simpleInputRef layout right = .ok (some spec.right)

theorem tryBuild_eq_some {layout : TupleDataLayout} {spec : SimpleJoinFilterSpec}
    (h : tryBuildSimpleJoinFilterSpec inputs prog layout = .ok (some spec)) :
    ∃ expr step left right, Accepted inputs prog layout spec expr step left right := by
  unfold tryBuildSimpleJoinFilterSpec at h
  split at h
  · rename_i expr step hexprs hsteps
    by_cases hstep : expr.firstStepIdx ≠ 0 ∨ expr.nSteps ≠ 1 ∨ step.outBoolReg ≠ expr.outputBoolReg
    · rw [if_pos hstep] at h
      cases h
    rw [if_neg hstep] at h
    split at h
    · rename_i left right hleft hright
      by_cases hside : left.side = right.side
      · rw [if_pos hside] at h
        cases h
      by_cases hstored : (!comparedAsStored step.op left right) = true
      · rw [if_neg hside, if_pos hstored] at h
        cases h
      rw [if_neg hside, if_neg hstored] at h
      cases hl : simpleInputRef layout left with
      | error e => rw [hl] at h; cases h
      | ok leftRef =>
        cases hr : simpleInputRef layout right with
        | error e =>
          rw [hl, hr] at h
          cases leftRef with
          | none => cases h
          | some leftRef => cases h
        | ok rightRef =>
          rw [hl, hr] at h
          cases leftRef with
          | none => cases h
          | some leftRef =>
            cases rightRef with
            | none => cases h
            | some rightRef =>
              obtain rfl := Option.some.inj (Except.ok.inj h)
              simp only [not_or, not_not] at hstep
              exact ⟨expr, step, left, right, hexprs, hsteps, hstep.1, hstep.2.1, hstep.2.2,
                hleft, hright, by simpa using hstored, rfl, rfl, hl, hr⟩
    · cases h
  · cases h

theorem comparedAsStored_cases {op : StepOp} {left right : HashJoinFilterInputDesc}
    (h : comparedAsStored op left right = true) :
    (op = .int32CmpVar ∧ isSimpleInt32JoinFilterInput left = true ∧
      isSimpleInt32JoinFilterInput right = true) ∨
    (op = .int64CmpVar ∧ isSimpleInt64JoinFilterInput left = true ∧
      isSimpleInt64JoinFilterInput right = true ∧
      (left.decodeKind = .int64NumericScaled → right.decodeKind = .int64NumericScaled →
        left.numericScale = right.numericScale)) := by
  cases op with
  | int32CmpVar =>
    rw [comparedAsStored, Bool.and_eq_true] at h
    exact Or.inl ⟨rfl, h.1, h.2⟩
  | int64CmpVar =>
    simp only [comparedAsStored, Bool.and_eq_true, Bool.not_eq_true', Bool.and_eq_false_iff,
      beq_eq_false_iff_ne, bne_eq_false_iff_eq] at h
    refine Or.inr ⟨rfl, h.1.1, h.1.2, fun hleft hright => ?_⟩
    rcases h.2 with (hne | hne) | heq
    · exact absurd hleft hne
    · exact absurd hright hne
    · exact heq
  | _ => cases h

/-- Numbers of one scale are compared as they are. -/
theorem int64Operands_same {step : Step} {left right : HashJoinFilterInputDesc}
    (hleft : inputs[step.leftIdx]? = some left) (hright : inputs[step.rightIdx]? = some right)
    (hscale : left.decodeKind = .int64NumericScaled → right.decodeKind = .int64NumericScaled →
      left.numericScale = right.numericScale) (l r : Int64) :
    (joinCopy inputs).int64Operands step l r = .ok (l, r) := by
  simp only [Copy.int64Operands, joinCopy, hleft, hright, Option.filter_some, beq_iff_eq]
  by_cases hl : left.decodeKind = .int64NumericScaled
  · by_cases hr : right.decodeKind = .int64NumericScaled
    · simp [hl, hr, hscale hl hr, rescaleNumericForCompare]
    · simp [hl, hr]
  · simp [hl]

/-- The step on the chunk and the specification on the pair of rows. -/
theorem evalSimpleFilterStep_join {spec : SimpleJoinFilterSpec} {expr : FilterExprDesc}
    {step : Step} {left right : HashJoinFilterInputDesc} {chunk : FilterChunk}
    (h : Accepted inputs prog pair.buildLayout spec expr step left right)
    (hchunk : ∀ (k : Nat) (input : HashJoinFilterInputDesc), inputs[k]? = some input →
      ∃ v, pair.inputValue input = .ok v ∧ chunk.HasInt k v) :
    (joinCopy inputs).evalSimpleFilterStep chunk 0 prog.stringConsts step =
      evaluateSimpleJoinFilter spec pair := by
  obtain ⟨l, hl, hlhas⟩ := hchunk _ _ h.leftInput
  obtain ⟨r, hr, hrhas⟩ := hchunk _ _ h.rightInput
  rcases comparedAsStored_cases h.stored with ⟨hop, hlkind, hrkind⟩ | ⟨hop, hlkind, hrkind, hscale⟩
  · obtain ⟨x, hx, hxread⟩ := readSimpleInt32_eq h.leftRef hlkind
    obtain ⟨y, hy, hyread⟩ := readSimpleInt32_eq h.rightRef hrkind
    obtain rfl := Except.ok.inj (hl.symm.trans hx)
    obtain rfl := Except.ok.inj (hr.symm.trans hy)
    have hxchunk : chunk.int32 step.leftIdx 0 = x := hlhas.2
    have hychunk : chunk.int32 step.rightIdx 0 = y := hrhas.2
    rw [evaluateSimpleJoinFilter, if_pos (h.op.trans hop), hxread, hyread, h.cmpOp]
    simp only [Copy.evalSimpleFilterStep, hop, hlhas.1, hrhas.1, hxchunk, hychunk, Bool.or_self,
      Bool.false_eq_true, if_false]
    rfl
  · obtain ⟨x, hx, hxread⟩ := readSimpleInt64_eq h.leftRef hlkind
    obtain ⟨y, hy, hyread⟩ := readSimpleInt64_eq h.rightRef hrkind
    obtain rfl := Except.ok.inj (hl.symm.trans hx)
    obtain rfl := Except.ok.inj (hr.symm.trans hy)
    have hxchunk : chunk.int64 step.leftIdx 0 = x := hlhas.2
    have hychunk : chunk.int64 step.rightIdx 0 = y := hrhas.2
    have hspec : spec.op ≠ .int32CmpVar := by
      rw [h.op, hop]
      decide
    rw [evaluateSimpleJoinFilter, if_neg hspec, hxread, hyread, h.cmpOp]
    simp only [Copy.evalSimpleFilterStep, hop, hlhas.1, hrhas.1, hxchunk, hychunk, Bool.or_self,
      Bool.false_eq_true, if_false, int64Operands_same h.leftInput h.rightInput hscale]
    rfl

/-- What a program stands on: as many steps as a `uint16_t` counts, and results in the registers
there are. -/
structure Program.WellFormed (prog : Program) (boolRegs : Nat) : Prop where
  stepCount : prog.steps.length < 2 ^ 16
  registers : ∀ step ∈ prog.steps, step.outBoolReg < boolRegs

/-- **The join filter by the interpreter**: it fills the chunk, and answers as the short way
does. -/
theorem evaluateJoinFilter_eq {spec : SimpleJoinFilterSpec} (chunk : FilterChunk) (regs : Regs)
    (hwf : prog.WellFormed filterMaxBoolRegs)
    (h : tryBuildSimpleJoinFilterSpec inputs prog pair.buildLayout = .ok (some spec)) :
    evaluateJoinFilter inputs prog pair chunk regs =
      (pair.populate inputs chunk).bind fun _ => evaluateSimpleJoinFilter spec pair := by
  obtain ⟨expr, step, left, right, hacc⟩ := tryBuild_eq_some h
  have hregister : step.outBoolReg < filterMaxBoolRegs :=
    hwf.registers step (by rw [hacc.steps]; exact List.mem_singleton_self step)
  have hinputs : inputs ≠ [] := by
    rintro rfl
    cases hacc.leftInput
  have hneeded : requiredBoolRegs prog.exprs = expr.outputBoolReg + 1 := by
    have hlt : expr.outputBoolReg + 1 < 2 ^ 16 := by
      rw [← hacc.register]
      exact Nat.lt_of_le_of_lt hregister (by decide)
    rw [hacc.exprs]
    show max 0 ((expr.outputBoolReg + 1) % 2 ^ 16) = _
    rw [Nat.mod_eq_of_lt hlt, Nat.zero_max]
  have hops : step.op ≠ .boolAnd ∧ step.op ≠ .boolOr ∧ step.op ≠ .boolNot := by
    rcases comparedAsStored_cases hacc.stored with ⟨hop, -⟩ | ⟨hop, -⟩ <;> rw [hop] <;> decide
  rw [evaluateJoinFilter, if_neg (by simp [hinputs, hacc.exprs, hacc.steps])]
  cases hpop : pair.populate inputs chunk with
  | error e => rfl
  | ok filled =>
    show (joinCopy inputs).evalGeneral prog filled 0 _ _ regs = evaluateSimpleJoinFilter spec pair
    rw [Copy.evalGeneral, hneeded, hacc.exprs]
    rw [evalExprs_single (joinCopy inputs) filled 0 prog.stringConsts _ _ hwf.stepCount hacc.count
      (by rw [hacc.steps, hacc.first]; rfl) hacc.register.symm (Nat.lt_succ_self _) hops]
    refine evalSimpleFilterStep_join hacc fun k input hk => ?_
    obtain ⟨v, hv, hhas⟩ := populateFrom_hasInt hpop hk
    exact ⟨v, hv, by rw [Nat.zero_add] at hhas; exact hhas⟩

/-- The chunk of an accepted program is filled without an error when every input is read. -/
theorem populate_of_accepted {spec : SimpleJoinFilterSpec} (chunk : FilterChunk)
    (h : tryBuildSimpleJoinFilterSpec inputs prog pair.buildLayout = .ok (some spec))
    (hread : ∀ i < inputs.length, ∃ step ∈ prog.steps, i = step.leftIdx ∨ i = step.rightIdx) :
    ∃ filled, pair.populate inputs chunk = .ok filled := by
  obtain ⟨expr, step, left, right, hacc⟩ := tryBuild_eq_some h
  refine populateFrom_of_ints 0 _ fun input hinput => ?_
  obtain ⟨i, hi, hget⟩ := List.getElem_of_mem hinput
  obtain ⟨other, hother, hidx⟩ := hread i hi
  rw [hacc.steps] at hother
  obtain rfl := List.mem_singleton.1 hother
  have hsome : inputs[i]? = some input := by rw [← hget]; exact List.getElem?_eq_getElem hi
  have hside : input = left ∨ input = right := by
    rcases hidx with rfl | rfl
    · exact Or.inl (Option.some.inj (hsome.symm.trans hacc.leftInput))
    · exact Or.inr (Option.some.inj (hsome.symm.trans hacc.rightInput))
  rcases comparedAsStored_cases hacc.stored with ⟨-, hl, hr⟩ | ⟨-, hl, hr, -⟩
  · obtain ⟨x, hx, -⟩ := readSimpleInt32_eq hacc.leftRef hl
    obtain ⟨y, hy, -⟩ := readSimpleInt32_eq hacc.rightRef hr
    rcases hside with rfl | rfl
    · exact Or.inl ⟨x, hx⟩
    · exact Or.inl ⟨y, hy⟩
  · obtain ⟨x, hx, -⟩ := readSimpleInt64_eq hacc.leftRef hl
    obtain ⟨y, hy, -⟩ := readSimpleInt64_eq hacc.rightRef hr
    rcases hside with rfl | rfl
    · exact Or.inr ⟨x, hx⟩
    · exact Or.inr ⟨y, hy⟩

end Join

/-! ## The three short ways -/

/-- **The short ways decide as the interpreter does**, on every row and whatever the registers
and the chunk of the join held before: in the filter, in the scan, and in the join, where the
interpreter first fills its chunk, without an error if every input is read by a step. -/
theorem simple_filters_agree :
    (∀ (inputs : List FilterInputDesc) (prog : Program) (step : Step) (chunk : FilterChunk)
      (row : Nat) (regs : Regs), prog.WellFormed filterMaxBoolRegs →
      isSimpleFilterStep prog.exprs prog.steps = some step →
        evalFilterAtRow inputs prog chunk row regs =
          evalSimpleFilterStepAtRow inputs prog step chunk row) ∧
    (∀ (prog : Program) (filterBoolRegs : Nat) (step : Step) (chunk : FilterChunk) (regs : Regs),
      prog.WellFormed filterBoolRegs →
      isSimpleFilterStep prog.exprs prog.steps = some step →
        evalScanFilter prog filterBoolRegs chunk regs = evalSimpleScanFilter prog step chunk) ∧
    (∀ (inputs : List HashJoinFilterInputDesc) (prog : Program) (spec : SimpleJoinFilterSpec)
      (pair : RowPair) (chunk : FilterChunk) (regs : Regs), prog.WellFormed filterMaxBoolRegs →
      tryBuildSimpleJoinFilterSpec inputs prog pair.buildLayout = .ok (some spec) →
        evaluateJoinFilter inputs prog pair chunk regs =
          ((pair.populate inputs chunk).bind fun _ => evaluateSimpleJoinFilter spec pair) ∧
        ((∀ i < inputs.length, ∃ step ∈ prog.steps, i = step.leftIdx ∨ i = step.rightIdx) →
          evaluateJoinFilter inputs prog pair chunk regs =
            evaluateSimpleJoinFilter spec pair)) := by
  refine ⟨fun inputs prog step chunk row regs hwf hsimple => ?_,
    fun prog filterBoolRegs step chunk regs hwf hsimple => ?_,
    fun inputs prog spec pair chunk regs hwf hspec => ⟨?_, fun hread => ?_⟩⟩
  · obtain ⟨expr, -, -, hstep, -⟩ := isSimpleFilterStep_eq_some hsimple
    exact evalGeneral_simple (filterCopy inputs) chunk row _ regs hwf.stepCount hsimple
      (hwf.registers step (List.mem_of_getElem? hstep))
  · obtain ⟨expr, -, -, hstep, -⟩ := isSimpleFilterStep_eq_some hsimple
    exact evalGeneral_simple scanCopy chunk 0 _ regs hwf.stepCount hsimple
      (hwf.registers step (List.mem_of_getElem? hstep))
  · exact evaluateJoinFilter_eq chunk regs hwf hspec
  · obtain ⟨filled, hfilled⟩ := populate_of_accepted chunk hspec hread
    rw [evaluateJoinFilter_eq chunk regs hwf hspec, hfilled]
    rfl

/-- A prefix test in a program of its own is accepted. -/
example : (isSimpleFilterStep [⟨0, 1, 0⟩] [⟨.stringPrefixLike, .eq, 2, 0, 0, 0, 3, 0⟩]).isSome :=
  rfl

end SimpleFilterSteps
end PgYaap
