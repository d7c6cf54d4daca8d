import PgYaap.FilterProgram
import PgYaap.HashJoinProbe
import PgYaap.ProjectionTape

/-! # Descriptors of pipelines

The leader writes its pipelines into shared memory as descriptors, from which every worker builds
operators of its own. An operator of the leader has a descriptor for every place where it stands
in a pipeline.

No memory of an area is ever given back while a query runs, so arrays of different types never
share memory and each kind has a store of its own. -/
namespace PgYaap
namespace PipelineDescriptors

open FilterProgram (FilterInputDesc FilterExprDesc FilterStep)
open ProjectionTape (ProjectStep)

/-! ## Operators -/

abbrev DsaPointer := Nat

def invalidDsaPointer : DsaPointer := 0

structure AggFuncDesc where
  (aggOid transtype finaltype : UInt32)
  inputColIdx : UInt16

structure ProjectExprDesc where
  (firstStepIdx nSteps : UInt16)
  outputChunkSlot : UInt8
  outputScale : Int8

structure PhysicalSeqScan where
  relid : UInt32
  (inputSchemaDp outputSchemaDp filterInputsDp filterExprsDp filterStepsDp : DsaPointer)
  filterStringConstsDp : DsaPointer
  (nFilterInputs nFilterExprs nFilterSteps filterBoolRegs : UInt16)
  filterStringConstBytes : UInt32
  sharedPayloadDp : DsaPointer

structure PhysicalDelimScan where
  (inputSchemaDp sharedPayloadDp : DsaPointer)

/-- Also `PhysicalPerfectHashAggregate`, which adds no field. -/
structure PhysicalHashAggregate where
  layoutDp : DsaPointer
  groupKeys : List UInt16
  aggFuncs : List AggFuncDesc
  sharedPayloadDp : DsaPointer
  (maxGroups perfectHashCapacity : UInt32)

structure PhysicalOrder where
  sortKeysDp : DsaPointer
  nSortKeys : UInt16
  (keyLayoutDp payloadLayoutDp sharedPayloadDp : DsaPointer)
  maxRows : UInt32

structure PhysicalTopN where
  (inputSchemaDp layoutDp sortKeysDp : DsaPointer)
  nSortKeys : UInt16
  sharedPayloadDp : DsaPointer
  maxRows : UInt32

structure OutputSink where
  (inputSchemaDp layoutDp finalSortKeysDp : DsaPointer)
  nFinalSortKeys : UInt16
  sharedPayloadDp : DsaPointer
  tdcMaxRows : UInt32
  maxEmitRows : UInt64

structure PhysicalFilter where
  inputSchemaDp : DsaPointer
  filterInputs : List FilterInputDesc
  filterExprs : List FilterExprDesc
  filterSteps : List FilterStep
  filterStringConsts : List UInt8
  (filterInputsDp filterExprsDp filterStepsDp filterStringConstsDp : DsaPointer)

structure PhysicalProjection where
  (inputSchemaDp outputSchemaDp : DsaPointer)
  exprDescs : List ProjectExprDesc
  steps : List ProjectStep
  (exprDescsDp stepsDp : DsaPointer)

structure PhysicalHashJoin where
  (leftInputSchemaDp rightInputSchemaDp outputSchemaDp leftKeyLayoutDp : DsaPointer)
  (rightKeyLayoutDp leftPayloadLayoutDp rightPayloadLayoutDp outputColumnsDp : DsaPointer)
  outputColumnCount : UInt16
  (filterInputsDp filterExprsDp filterStepsDp filterStringConstsDp : DsaPointer)
  (nFilterInputs nFilterExprs nFilterSteps filterBoolRegs : UInt16)
  joinMode : HashJoinMatchMode
  filterStringConstBytes : UInt32
  sharedPayloadDp : DsaPointer
  (nLeftKeys nRightKeys : UInt16)
  maxRows : UInt32

structure PhysicalCrossProduct where
  (leftInputSchemaDp rightInputSchemaDp outputSchemaDp rightPayloadLayoutDp : DsaPointer)
  outputColumnsDp : DsaPointer
  outputColumnCount : UInt16
  sharedPayloadDp : DsaPointer
  maxRows : UInt32

/-- The fields of an operator that its constructor takes. -/
inductive PhysicalOperator
  | seqScan (op : PhysicalSeqScan)
  | delimScan (op : PhysicalDelimScan)
  | hashAggregate (op : PhysicalHashAggregate)
  | perfectHashAggregate (op : PhysicalHashAggregate)
  | hashJoin (op : PhysicalHashJoin)
  | crossProduct (op : PhysicalCrossProduct)
  | order (op : PhysicalOrder)
  | topN (op : PhysicalTopN)
  | output (op : OutputSink)
  | filter (op : PhysicalFilter)
  | projection (op : PhysicalProjection)

/-- `PhysicalOperatorType` as a number. -/
def PhysicalOperator.type : PhysicalOperator → Nat
  | seqScan _ => 0
  | delimScan _ => 1
  | hashAggregate _ => 2
  | perfectHashAggregate _ => 3
  | hashJoin _ => 4
  | crossProduct _ => 5
  | order _ => 6
  | topN _ => 7
  | output _ => 8
  | filter _ => 9
  | projection _ => 10

/-- A descriptor: its place in an array of descriptors. -/
structure Slot where
  ops : DsaPointer
  index : Nat
deriving DecidableEq

/-- An operator object with `desc_` and `desc_list_`. Filters and projections have no list; theirs
stays empty. -/
structure Operator where
  params : PhysicalOperator
  desc : Option Slot
  descs : List Slot

def Operator.attachDescriptor (op : Operator) (slot : Slot) : Operator :=
  { op with desc := some slot, descs := op.descs ++ [slot] }

/-! ## Descriptors -/

structure SeqScanOpBody where
  relid : UInt32
  (inputSchema outputSchema filterInputs filterExprs filterSteps filterStringConsts : DsaPointer)
  sharedPayload : DsaPointer
  (nFilterInputs nFilterExprs nFilterSteps filterBoolRegs : UInt16)
  filterStringConstBytes : UInt32

structure DelimScanOpBody where
  (inputSchema sharedPayload : DsaPointer)

structure HashAggOpBody where
  (inputSchema outputSchema groupKeys aggFuncs layout sharedPayload : DsaPointer)
  (nGroupKeys nAggFuncs : UInt16)
  (maxGroups perfectHashCapacity : UInt32)

structure OrderOpBody where
  (inputSchema sortKeys keyLayout payloadLayout sharedPayload sortIndices : DsaPointer)
  nSortKeys : UInt16
  maxRows : UInt32

structure TopNOpBody where
  (inputSchema layout sortKeys sharedPayload sortIndices : DsaPointer)
  nSortKeys : UInt16
  maxRows : UInt32

structure OutputOpBody where
  (inputSchema layout sortKeys sharedPayload : DsaPointer)
  nSortKeys : UInt16
  tdcMaxRows : UInt32
  maxEmitRows : UInt64

structure FilterOpBody where
  (inputSchema filterInputs filterExprs filterSteps filterStringConsts : DsaPointer)
  (nFilterInputs nFilterExprs nFilterSteps filterBoolRegs : UInt16)
  filterStringConstBytes : UInt32

structure ProjectOpBody where
  (inputSchema outputSchema exprDescs steps : DsaPointer)
  (nExprs nStepsTotal : UInt16)

structure HashJoinOpBody where
  (leftInputSchema rightInputSchema outputSchema leftKeyLayout rightKeyLayout : DsaPointer)
  (leftPayloadLayout rightPayloadLayout outputColumns filterInputs filterExprs : DsaPointer)
  (filterSteps filterStringConsts sharedPayload : DsaPointer)
  (nLeftKeys nRightKeys outputColumnCount nFilterInputs nFilterExprs nFilterSteps : UInt16)
  filterBoolRegs : UInt16
  joinMode : HashJoinMatchMode
  (filterStringConstBytes maxRows : UInt32)

structure CrossProductOpBody where
  (leftInputSchema rightInputSchema outputSchema rightPayloadLayout outputColumns : DsaPointer)
  sharedPayload : DsaPointer
  outputColumnCount : UInt16
  maxRows : UInt32

/-- `OpDescriptor`: the kind with the body that goes with it. -/
inductive OpDescriptor
  | seqScan (body : SeqScanOpBody)
  | delimScan (body : DelimScanOpBody)
  | hashAggregate (body : HashAggOpBody)
  | perfectHashAggregate (body : HashAggOpBody)
  | hashJoin (body : HashJoinOpBody)
  | crossProduct (body : CrossProductOpBody)
  | order (body : OrderOpBody)
  | topN (body : TopNOpBody)
  | output (body : OutputOpBody)
  | filter (body : FilterOpBody)
  | projection (body : ProjectOpBody)

/-- A descriptor as `dsa_allocate0` leaves it. -/
def OpDescriptor.zero : OpDescriptor := .seqScan ⟨0, 0, 0, 0, 0, 0, 0, 0, 0, 0, 0, 0, 0⟩

structure PipelineDescriptor where
  pipelineId : UInt16
  opCount : Nat
  dependencyMask : BitVec 64
  (ops globalSourceState globalSinkState : DsaPointer)
  taskSlotNext : UInt32

def PipelineDescriptor.zero : PipelineDescriptor := ⟨0, 0, 0, 0, 0, 0, 0⟩

/-! ## Shared memory -/

/-- An array of one of the types that operators are serialized with. -/
inductive Block
  | uint16s (values : List UInt16)
  | aggFuncs (values : List AggFuncDesc)
  | projectExprs (values : List ProjectExprDesc)
  | projectSteps (values : List ProjectStep)
  | filterInputs (values : List FilterInputDesc)
  | filterExprs (values : List FilterExprDesc)
  | filterSteps (values : List FilterStep)
  | chars (values : List UInt8)

/-- A type whose arrays are blocks. -/
class Stored (α : Type) where
  toBlock : List α → Block
  ofBlock : Block → Option (List α)
  ofBlock_toBlock : ∀ values, ofBlock (toBlock values) = some values

instance : Stored UInt16 where
  toBlock := .uint16s
  ofBlock | .uint16s values => some values | _ => none
  ofBlock_toBlock _ := rfl

instance : Stored AggFuncDesc where
  toBlock := .aggFuncs
  ofBlock | .aggFuncs values => some values | _ => none
  ofBlock_toBlock _ := rfl

instance : Stored ProjectExprDesc where
  toBlock := .projectExprs
  ofBlock | .projectExprs values => some values | _ => none
  ofBlock_toBlock _ := rfl

instance : Stored ProjectStep where
  toBlock := .projectSteps
  ofBlock | .projectSteps values => some values | _ => none
  ofBlock_toBlock _ := rfl

instance : Stored FilterInputDesc where
  toBlock := .filterInputs
  ofBlock | .filterInputs values => some values | _ => none
  ofBlock_toBlock _ := rfl

instance : Stored FilterExprDesc where
  toBlock := .filterExprs
  ofBlock | .filterExprs values => some values | _ => none
  ofBlock_toBlock _ := rfl

instance : Stored FilterStep where
  toBlock := .filterSteps
  ofBlock | .filterSteps values => some values | _ => none
  ofBlock_toBlock _ := rfl

instance : Stored UInt8 where
  toBlock := .chars
  ofBlock | .chars values => some values | _ => none
  ofBlock_toBlock _ := rfl

/-- A shared memory area. A pointer is one more than the number of the array in its store. -/
structure Dsa where
  arrays : List Block
  ops : List (List OpDescriptor)
  pipelines : List (List PipelineDescriptor)

/-- What a pointer points to. -/
def deref {α : Type} (store : List α) : DsaPointer → Option α
  | 0 => none
  | n + 1 => store[n]?

namespace Dsa

def descriptorAt (dsa : Dsa) (slot : Slot) : Option OpDescriptor :=
  (deref dsa.ops slot.ops).bind fun ops => ops[slot.index]?

/-- A descriptor is changed in place. -/
def updateDescriptor (dsa : Dsa) (slot : Slot) (f : OpDescriptor → OpDescriptor) : Dsa :=
  match slot.ops with
  | 0 => dsa
  | n + 1 => { dsa with ops := dsa.ops.modify n fun ops => ops.modify slot.index f }

/-- The array of `n` descriptors that comes next. -/
def allocateOps (dsa : Dsa) (n : Nat) : DsaPointer × Dsa :=
  (dsa.ops.length + 1, { dsa with ops := dsa.ops ++ [List.replicate n .zero] })

end Dsa

/-! ## Writing operators -/

/-- `SerializeUInt16Vector`, `SerializeAggFuncVector` and their like: the number of values is
`count` of their length. -/
def serializeVector {α κ : Type} [Stored α] (count : Nat → κ) (values : List α) (dsa : Dsa) :
    (DsaPointer × κ) × Dsa :=
  if values.isEmpty then ((invalidDsaPointer, count 0), dsa)
  else ((dsa.arrays.length + 1, count values.length),
    { dsa with arrays := dsa.arrays ++ [Stored.toBlock values] })

def serializeUInt16Vector (values : List UInt16) := serializeVector UInt16.ofNat values

def serializeAggFuncVector (values : List AggFuncDesc) := serializeVector UInt16.ofNat values

def serializeProjectExprVector (values : List ProjectExprDesc) :=
  serializeVector UInt16.ofNat values

def serializeProjectStepVector (values : List ProjectStep) := serializeVector UInt16.ofNat values

def serializeFilterInputVector (values : List FilterInputDesc) :=
  serializeVector UInt16.ofNat values

def serializeFilterExprVector (values : List FilterExprDesc) := serializeVector UInt16.ofNat values

def serializeFilterStepVector (values : List FilterStep) := serializeVector UInt16.ofNat values

/-- `SerializeCharVector`, which has a wider count. -/
def serializeCharVector (values : List UInt8) := serializeVector UInt32.ofNat values

def requiredFilterBoolRegs (exprs : List FilterExprDesc) : UInt16 :=
  exprs.foldl (fun maxReg e => max maxReg (UInt16.ofNat (e.outputBoolReg + 1))) 0

def emitSeqScan (op : PhysicalSeqScan) : OpDescriptor :=
  .seqScan
    { relid := op.relid
      inputSchema := op.inputSchemaDp
      outputSchema := op.outputSchemaDp
      filterInputs := op.filterInputsDp
      filterExprs := op.filterExprsDp
      filterSteps := op.filterStepsDp
      filterStringConsts := op.filterStringConstsDp
      sharedPayload := op.sharedPayloadDp
      nFilterInputs := op.nFilterInputs
      nFilterExprs := op.nFilterExprs
      nFilterSteps := op.nFilterSteps
      filterBoolRegs := op.filterBoolRegs
      filterStringConstBytes := op.filterStringConstBytes }

def emitDelimScan (op : PhysicalDelimScan) : OpDescriptor :=
  .delimScan { inputSchema := op.inputSchemaDp, sharedPayload := op.sharedPayloadDp }

/-- `EmitHashAgg`: the body, which the kind of the operator is put to. -/
def emitHashAgg (kind : HashAggOpBody → OpDescriptor) (op : PhysicalHashAggregate) (dsa : Dsa) :
    OpDescriptor × Dsa :=
  let ((groupKeys, nGroupKeys), dsa) := serializeUInt16Vector op.groupKeys dsa
  let ((aggFuncs, nAggFuncs), dsa) := serializeAggFuncVector op.aggFuncs dsa
  (kind
    { inputSchema := invalidDsaPointer
      outputSchema := invalidDsaPointer
      groupKeys, aggFuncs
      layout := op.layoutDp
      sharedPayload := op.sharedPayloadDp
      nGroupKeys, nAggFuncs
      maxGroups := op.maxGroups
      perfectHashCapacity := op.perfectHashCapacity }, dsa)

/-- `EmitOrder`, which leaves `sort_indices` as it was allocated. -/
def emitOrder (op : PhysicalOrder) : OpDescriptor :=
  .order
    { inputSchema := invalidDsaPointer
      sortKeys := op.sortKeysDp
      keyLayout := op.keyLayoutDp
      payloadLayout := op.payloadLayoutDp
      sharedPayload := op.sharedPayloadDp
      sortIndices := 0
      nSortKeys := op.nSortKeys
      maxRows := op.maxRows }

def emitTopN (op : PhysicalTopN) : OpDescriptor :=
  .topN
    { inputSchema := op.inputSchemaDp
      layout := op.layoutDp
      sortKeys := op.sortKeysDp
      sharedPayload := op.sharedPayloadDp
      sortIndices := invalidDsaPointer
      nSortKeys := op.nSortKeys
      maxRows := op.maxRows }

def emitOutput (op : OutputSink) : OpDescriptor :=
  .output
    { inputSchema := op.inputSchemaDp
      layout := op.layoutDp
      sortKeys := op.finalSortKeysDp
      sharedPayload := op.sharedPayloadDp
      nSortKeys := op.nFinalSortKeys
      tdcMaxRows := op.tdcMaxRows
      maxEmitRows := op.maxEmitRows }

def emitFilter (op : PhysicalFilter) (dsa : Dsa) : OpDescriptor × Dsa :=
  let ((filterInputs, nFilterInputs), dsa) := serializeFilterInputVector op.filterInputs dsa
  let ((filterExprs, nFilterExprs), dsa) := serializeFilterExprVector op.filterExprs dsa
  let ((filterSteps, nFilterSteps), dsa) := serializeFilterStepVector op.filterSteps dsa
  let ((filterStringConsts, filterStringConstBytes), dsa) :=
    serializeCharVector op.filterStringConsts dsa
  (.filter
    { inputSchema := op.inputSchemaDp
      filterInputs, filterExprs, filterSteps, filterStringConsts
      nFilterInputs, nFilterExprs, nFilterSteps
      filterBoolRegs := requiredFilterBoolRegs op.filterExprs
      filterStringConstBytes }, dsa)

def emitProjection (op : PhysicalProjection) (dsa : Dsa) : OpDescriptor × Dsa :=
  let ((exprDescs, nExprs), dsa) := serializeProjectExprVector op.exprDescs dsa
  let ((steps, nStepsTotal), dsa) := serializeProjectStepVector op.steps dsa
  (.projection
    { inputSchema := op.inputSchemaDp
      outputSchema := op.outputSchemaDp
      exprDescs, steps, nExprs, nStepsTotal }, dsa)

def emitHashJoin (op : PhysicalHashJoin) : OpDescriptor :=
  .hashJoin
    { leftInputSchema := op.leftInputSchemaDp
      rightInputSchema := op.rightInputSchemaDp
      outputSchema := op.outputSchemaDp
      leftKeyLayout := op.leftKeyLayoutDp
      rightKeyLayout := op.rightKeyLayoutDp
      leftPayloadLayout := op.leftPayloadLayoutDp
      rightPayloadLayout := op.rightPayloadLayoutDp
      outputColumns := op.outputColumnsDp
      filterInputs := op.filterInputsDp
      filterExprs := op.filterExprsDp
      filterSteps := op.filterStepsDp
      filterStringConsts := op.filterStringConstsDp
      sharedPayload := op.sharedPayloadDp
      nLeftKeys := op.nLeftKeys
      nRightKeys := op.nRightKeys
      outputColumnCount := op.outputColumnCount
      nFilterInputs := op.nFilterInputs
      nFilterExprs := op.nFilterExprs
      nFilterSteps := op.nFilterSteps
      filterBoolRegs := op.filterBoolRegs
      joinMode := op.joinMode
      filterStringConstBytes := op.filterStringConstBytes
      maxRows := op.maxRows }

def emitCrossProduct (op : PhysicalCrossProduct) : OpDescriptor :=
  .crossProduct
    { leftInputSchema := op.leftInputSchemaDp
      rightInputSchema := op.rightInputSchemaDp
      outputSchema := op.outputSchemaDp
      rightPayloadLayout := op.rightPayloadLayoutDp
      outputColumns := op.outputColumnsDp
      sharedPayload := op.sharedPayloadDp
      outputColumnCount := op.outputColumnCount
      maxRows := op.maxRows }

/-- The `Emit` function of an operator. -/
def emit (op : PhysicalOperator) (dsa : Dsa) : OpDescriptor × Dsa :=
  match op with
  | .seqScan op => (emitSeqScan op, dsa)
  | .delimScan op => (emitDelimScan op, dsa)
  | .hashAggregate op => emitHashAgg .hashAggregate op dsa
  | .perfectHashAggregate op => emitHashAgg .perfectHashAggregate op dsa
  | .hashJoin op => (emitHashJoin op, dsa)
  | .crossProduct op => (emitCrossProduct op, dsa)
  | .order op => (emitOrder op, dsa)
  | .topN op => (emitTopN op, dsa)
  | .output op => (emitOutput op, dsa)
  | .filter op => emitFilter op dsa
  | .projection op => emitProjection op dsa

/-! ## Reading operators -/

/-- The values of a serialized vector. -/
def readVector {α : Type} [Stored α] (dsa : Dsa) (values : DsaPointer) (n : Nat) :
    Option (List α) :=
  if 0 < n ∧ values ≠ invalidDsaPointer then
    ((deref dsa.arrays values).bind Stored.ofBlock).map (List.take n)
  else some []

def reconstructHashAgg (dsa : Dsa) (body : HashAggOpBody) : Option PhysicalHashAggregate := do
  let groupKeys ← readVector dsa body.groupKeys body.nGroupKeys.toNat
  let aggFuncs ← readVector dsa body.aggFuncs body.nAggFuncs.toNat
  return {
    layoutDp := body.layout
    groupKeys, aggFuncs
    sharedPayloadDp := body.sharedPayload
    maxGroups := body.maxGroups
    perfectHashCapacity := body.perfectHashCapacity }

def reconstructFilter (dsa : Dsa) (body : FilterOpBody) : Option PhysicalFilter := do
  let filterInputs ← readVector dsa body.filterInputs body.nFilterInputs.toNat
  let filterExprs ← readVector dsa body.filterExprs body.nFilterExprs.toNat
  let filterSteps ← readVector dsa body.filterSteps body.nFilterSteps.toNat
  let filterStringConsts ←
    readVector dsa body.filterStringConsts body.filterStringConstBytes.toNat
  return {
    inputSchemaDp := body.inputSchema
    filterInputs, filterExprs, filterSteps, filterStringConsts
    filterInputsDp := body.filterInputs
    filterExprsDp := body.filterExprs
    filterStepsDp := body.filterSteps
    filterStringConstsDp := body.filterStringConsts }

def reconstructProjection (dsa : Dsa) (body : ProjectOpBody) : Option PhysicalProjection := do
  let exprDescs ← readVector dsa body.exprDescs body.nExprs.toNat
  let steps ← readVector dsa body.steps body.nStepsTotal.toNat
  return {
    inputSchemaDp := body.inputSchema
    outputSchemaDp := body.outputSchema
    exprDescs, steps
    exprDescsDp := body.exprDescs
    stepsDp := body.steps }

/-- `ReconstructOp`: the arguments of the constructor. -/
def reconstructParams (dsa : Dsa) : OpDescriptor → Option PhysicalOperator
  | .seqScan body => some <| .seqScan
    { relid := body.relid
      inputSchemaDp := body.inputSchema
      outputSchemaDp := body.outputSchema
      filterInputsDp := body.filterInputs
      filterExprsDp := body.filterExprs
      filterStepsDp := body.filterSteps
      filterStringConstsDp := body.filterStringConsts
      nFilterInputs := body.nFilterInputs
      nFilterExprs := body.nFilterExprs
      nFilterSteps := body.nFilterSteps
      filterBoolRegs := body.filterBoolRegs
      filterStringConstBytes := body.filterStringConstBytes
      sharedPayloadDp := body.sharedPayload }
  | .delimScan body => some <| .delimScan
    { inputSchemaDp := body.inputSchema, sharedPayloadDp := body.sharedPayload }
  | .hashAggregate body => (reconstructHashAgg dsa body).map .hashAggregate
  | .perfectHashAggregate body => (reconstructHashAgg dsa body).map .perfectHashAggregate
  | .order body => some <| .order
    { sortKeysDp := body.sortKeys
      nSortKeys := body.nSortKeys
      keyLayoutDp := body.keyLayout
      payloadLayoutDp := body.payloadLayout
      sharedPayloadDp := body.sharedPayload
      maxRows := body.maxRows }
  | .topN body => some <| .topN
    { inputSchemaDp := body.inputSchema
      layoutDp := body.layout
      sortKeysDp := body.sortKeys
      nSortKeys := body.nSortKeys
      sharedPayloadDp := body.sharedPayload
      maxRows := body.maxRows }
  | .output body => some <| .output
    { inputSchemaDp := body.inputSchema
      layoutDp := body.layout
      finalSortKeysDp := body.sortKeys
      nFinalSortKeys := body.nSortKeys
      sharedPayloadDp := body.sharedPayload
      tdcMaxRows := body.tdcMaxRows
      maxEmitRows := body.maxEmitRows }
  | .filter body => (reconstructFilter dsa body).map .filter
  | .projection body => (reconstructProjection dsa body).map .projection
  | .hashJoin body => some <| .hashJoin
    { leftInputSchemaDp := body.leftInputSchema
      rightInputSchemaDp := body.rightInputSchema
      outputSchemaDp := body.outputSchema
      leftKeyLayoutDp := body.leftKeyLayout
      rightKeyLayoutDp := body.rightKeyLayout
      leftPayloadLayoutDp := body.leftPayloadLayout
      rightPayloadLayoutDp := body.rightPayloadLayout
      outputColumnsDp := body.outputColumns
      outputColumnCount := body.outputColumnCount
      filterInputsDp := body.filterInputs
      filterExprsDp := body.filterExprs
      filterStepsDp := body.filterSteps
      filterStringConstsDp := body.filterStringConsts
      nFilterInputs := body.nFilterInputs
      nFilterExprs := body.nFilterExprs
      nFilterSteps := body.nFilterSteps
      filterBoolRegs := body.filterBoolRegs
      joinMode := body.joinMode
      filterStringConstBytes := body.filterStringConstBytes
      sharedPayloadDp := body.sharedPayload
      nLeftKeys := body.nLeftKeys
      nRightKeys := body.nRightKeys
      maxRows := body.maxRows }
  | .crossProduct body => some <| .crossProduct
    { leftInputSchemaDp := body.leftInputSchema
      rightInputSchemaDp := body.rightInputSchema
      outputSchemaDp := body.outputSchema
      rightPayloadLayoutDp := body.rightPayloadLayout
      outputColumnsDp := body.outputColumns
      outputColumnCount := body.outputColumnCount
      sharedPayloadDp := body.sharedPayload
      maxRows := body.maxRows }

/-- `ReconstructOp`: the new object keeps its descriptor, but is in no list. -/
def reconstructOp (dsa : Dsa) (slot : Slot) : Option Operator := do
  let descriptor ← dsa.descriptorAt slot
  let params ← reconstructParams dsa descriptor
  return { params, desc := some slot, descs := [] }

/-! ## The leader -/

/-- A pipeline of a bundle, with the addresses of its operators. -/
structure Pipeline where
  id : UInt16
  source : Nat
  ops : List Nat
  sink : Nat
  dependsOn : List UInt16

/-- The operators of a pipeline in the order of their descriptors. -/
def Pipeline.operators (p : Pipeline) : List Nat := p.source :: (p.ops ++ [p.sink])

/-- Shared memory and the operators of the leader by their addresses. -/
structure Leader where
  dsa : Dsa
  operators : Nat → Operator

/-- Why serialization stops: an error report, or a write outside the array of the pipelines. -/
inductive Failure
  | report (message : String)
  | outOfBounds

/-- `DependencyMask`. Shifts are by less than 64 bits. -/
def dependencyMask (dependsOn : List UInt16) : BitVec 64 :=
  dependsOn.foldl (fun mask dep => mask ||| (1#64 <<< dep.toNat)) 0#64

/-- The case labels of the switch over sources. -/
def isSource : PhysicalOperator → Bool
  | .seqScan _ | .delimScan _ | .hashAggregate _ | .perfectHashAggregate _ | .order _ | .topN _
  | .filter _ | .projection _ | .hashJoin _ | .crossProduct _ => true
  | .output _ => false

/-- The case labels of the switch over the operators between. -/
def isMid : PhysicalOperator → Bool
  | .hashAggregate _ | .perfectHashAggregate _ | .filter _ | .projection _ | .hashJoin _
  | .crossProduct _ => true
  | _ => false

/-- The case labels of the switch over sinks. -/
def isSink : PhysicalOperator → Bool
  | .hashAggregate _ | .perfectHashAggregate _ | .order _ | .topN _ | .output _ | .hashJoin _
  | .crossProduct _ => true
  | _ => false

/-- Filters and projections are not attached to their descriptors. -/
def isAttached : PhysicalOperator → Bool
  | .filter _ | .projection _ => false
  | _ => true

/-- A branch of a switch: the operator is written to the slot and attached to it. -/
def emitAt (slot : Slot) (address : Nat) (s : Leader) : Leader :=
  let op := s.operators address
  let (descriptor, dsa) := emit op.params s.dsa
  { dsa := dsa.updateDescriptor slot fun _ => descriptor
    operators := if isAttached op.params then
        Function.update s.operators address (op.attachDescriptor slot)
      else s.operators }

/-- A switch: `role` is named in the report for an operator without a branch. -/
def emitRole (role : String) (supported : PhysicalOperator → Bool) (slot : Slot) (address : Nat)
    (s : Leader) : Except Failure Leader :=
  if supported (s.operators address).params then .ok (emitAt slot address s)
  else .error (.report (s!"pg_yaap: unsupported {role} operator type " ++
    toString (s.operators address).params.type))

/-- The loop over the operators between. -/
def emitMids (ops : DsaPointer) : Nat → List Nat → Leader → Except Failure Leader
  | _, [], s => .ok s
  | idx, mid :: mids, s => do
    let s ← emitRole "mid-pipeline" isMid ⟨ops, idx⟩ mid s
    emitMids ops (idx + 1) mids s

/-- `root[id]` is written. -/
def writePipeline (dsa : Dsa) (root : DsaPointer) (id : Nat) (descriptor : PipelineDescriptor) :
    Except Failure Dsa :=
  match deref dsa.pipelines root with
  | some pipelines =>
    if id < pipelines.length then
      .ok { dsa with
        pipelines := dsa.pipelines.set (root - 1) (pipelines.set id descriptor) }
    else .error .outOfBounds
  | none => .error .outOfBounds

/-- `LeaderSerializePipelines`: the body of the loop over the pipelines. -/
def serializePipeline (root : DsaPointer) (pipeline : Pipeline) (s : Leader) :
    Except Failure Leader := do
  let (ops, dsa) := s.dsa.allocateOps (2 + pipeline.ops.length)
  let dsa ← writePipeline dsa root pipeline.id.toNat {
    pipelineId := pipeline.id
    opCount := 2 + pipeline.ops.length
    dependencyMask := dependencyMask pipeline.dependsOn
    ops
    globalSourceState := invalidDsaPointer
    globalSinkState := invalidDsaPointer
    taskSlotNext := 0 }
  let s ← emitRole "source" isSource ⟨ops, 0⟩ pipeline.source { s with dsa }
  let s ← emitMids ops 1 pipeline.ops s
  emitRole "sink" isSink ⟨ops, 1 + pipeline.ops.length⟩ pipeline.sink s

/-! ## A worker -/

/-- A pipeline of a worker, which has its own operators. -/
structure WorkerPipeline where
  id : UInt16
  source : Operator
  ops : List Operator
  sink : Operator
  dependsOn : List UInt16

/-- The bits of a mask. -/
def dependenciesOf (mask : BitVec 64) : List UInt16 :=
  ((List.range 64).filter fun dep => mask &&& (1#64 <<< dep) ≠ 0#64).map UInt16.ofNat

/-- `WorkerReconstructPipelines`: the body of the loop; `none` where memory is read that no
pipeline has. -/
def reconstructPipeline (dsa : Dsa) (pd : PipelineDescriptor) : Option WorkerPipeline := do
  let source ← reconstructOp dsa ⟨pd.ops, 0⟩
  let ops ← (List.range' 1 (pd.opCount - 2)).mapM fun idx => reconstructOp dsa ⟨pd.ops, idx⟩
  let sink ← reconstructOp dsa ⟨pd.ops, pd.opCount - 1⟩
  return {
    id := pd.pipelineId
    source, ops, sink
    dependsOn := dependenciesOf pd.dependencyMask }

end PipelineDescriptors
end PgYaap
