import PgYaap.AggregateHashTableRows

/-! # Looking up and inserting a batch

A batch of rows is probed in rounds. A round takes the rows that are still probing in vectors of
eight: a row at an empty slot is inserted, one at a slot with its salt is compared with the row
there, together with the others of its vector, and the rest go on to their next slots in the next
round. Rows with one group are at one slot in every round and keep their order, so that the first
of them inserts it and the others find it. -/
namespace PgYaap

open ColumnSlots AggregateStates HashJoinBuild ProbedTables TupleDataCollection

namespace AggregateHashTable

/-! ## The loop -/

/-- `AggregateHashTableBatchProbeInput`. -/
structure BatchProbeInput where
  rowIdx : Nat
  hash : UInt64

/-- `AggregateHashTableBatchProbeResult`. -/
structure BatchProbeResult where
  rowIdx : Nat
  canonicalRowIdx : Nat
  inserted : Bool
  deriving DecidableEq

/-- An active input: its number in the batch, `current_slot` and `probe_tries`. -/
structure Probe where
  inputIdx : Nat
  input : BatchProbeInput
  slot : Nat
  tries : Nat

/-- The next slot of an input. -/
def Probe.next (aht : AggregateHashTable) (p : Probe) : Probe :=
  { p with slot := aht.nextSlot p.input.hash p.slot, tries := p.tries + 1 }

/-- The table, its row store, and the results so far. -/
structure BatchState where
  aht : AggregateHashTable
  tdc : TupleDataCollection
  results : Nat → Option BatchProbeResult

/-- The state within a vector: with the inputs deferred to the next round, and those to be
compared with the rows at their slots. -/
structure LaneState extends BatchState where
  deferred : List Probe
  compared : List (Probe × Nat)

def BatchState.resolve (st : BatchState) (p : Probe) (canonical : Nat) (inserted : Bool) :
    BatchState :=
  { st with
    results := Function.update st.results p.inputIdx
      (some ⟨p.input.rowIdx, canonical, inserted⟩) }

section Definitions

variable (aarch64 : Bool) (layout : AggregateLayout) (chunk : DataChunk)

/-- The loop body over the lanes of a vector. A lane has the entry that was at its slot when the
vector was loaded: `empty_mask` is about that entry. -/
def probeLane (s : LaneState) (lane : Probe × Option (UInt16 × Nat)) : Except String LaneState :=
  let p := lane.1
  if lane.2 = none ∧ s.aht.entries p.slot = none then
    match s.tdc.appendRow with
    | none => .error "pg_yaap: local hash aggregate row capacity exceeded"
    | some (dst, candidate) => do
      let tdc ← scatterGroup layout dst candidate (chunk, p.input.rowIdx)
      return { s with
        toBatchState := BatchState.resolve
          ⟨s.aht.setEntry p.slot (hashSalt p.input.hash) candidate, tdc, s.results⟩ p candidate true }
  else
    match s.aht.entries p.slot with
    | some (salt, existing) =>
      if salt = hashSalt p.input.hash then
        .ok { s with compared := s.compared ++ [(p, existing)] }
      else .ok { s with deferred := s.deferred ++ [p.next s.aht] }
    | none => .ok { s with deferred := s.deferred ++ [p.next s.aht] }

/-- The loop body over the results of `MatchGroupBatch`. -/
def resolveCompared (s : BatchState × List Probe) (m : (Probe × Nat) × Bool) :
    BatchState × List Probe :=
  if m.2 then (s.1.resolve m.1.1 m.1.2 false, s.2) else (s.1, s.2 ++ [m.1.1.next s.1.aht])

/-- A vector: load the entries, work off the lanes, compare. -/
def probeVector (st : BatchState) (probes : List Probe) :
    Except String (BatchState × List Probe) :=
  if probes.any fun p => st.aht.capacity ≤ p.tries then
    .error "pg_yaap: AggregateHashTable full (capacity=%u)"
  else do
    let s ← (probes.map fun p => (p, st.aht.entries p.slot)).foldlM (probeLane layout chunk)
      ⟨st, [], []⟩
    let matchResults := matchGroupBatch aarch64 layout.toTupleDataLayout s.tdc chunk
      (s.compared.map fun c => (some c.2, c.1.input.rowIdx))
    return (s.compared.zip matchResults).foldl resolveCompared (s.toBatchState, s.deferred)

/-- `ProbeVector::kWidth`. -/
def vectorWidth : Nat := 8

/-- A round over the active inputs. -/
def probeRound (st : BatchState) (active : List Probe) :
    Except String (BatchState × List Probe) :=
  match active with
  | [] => .ok (st, [])
  | p :: rest => do
    let (st, deferred) ← probeVector aarch64 layout chunk st ((p :: rest).take vectorWidth)
    let (st, more) ← probeRound st ((p :: rest).drop vectorWidth)
    return (st, deferred ++ more)
termination_by active.length
decreasing_by
  rw [List.length_drop, List.length_cons, vectorWidth]
  omega

/-- The rounds. An input that has tried every slot ends them, so that they are at most one more
than there are slots. -/
def probeRounds : Nat → BatchState → List Probe → Except String BatchState
  | _, st, [] => .ok st
  | 0, _, _ :: _ => .error "more rounds than slots"
  | rounds + 1, st, p :: rest => do
    let (st, deferred) ← probeRound aarch64 layout chunk st (p :: rest)
    probeRounds rounds st deferred

/-- The active inputs before the first round. -/
def startProbes (aht : AggregateHashTable) (inputs : List BatchProbeInput) : List Probe :=
  inputs.zipIdx.map fun x => ⟨x.2, x.1, aht.firstSlot x.1.hash, 0⟩

/-- What a batch returns: the table, its row store, and the results in the order of the inputs. -/
abbrev BatchOutput : Type :=
  AggregateHashTable × TupleDataCollection × List (Option BatchProbeResult)

/-- `AggregateHashTableFindOrInsertBatch`. -/
def findOrInsertBatch (aht : AggregateHashTable) (t : TupleDataCollection)
    (inputs : List BatchProbeInput) : Except String BatchOutput := do
  let st ← probeRounds aarch64 layout chunk (aht.capacity + 1) ⟨aht, t, fun _ => none⟩
    (startProbes aht inputs)
  return (st.aht, st.tdc, (List.range inputs.length).map st.results)

/-! ## One row at a time -/

/-- What the batch stands for: a row is looked up, and inserted where its group is missing. The
probe is that of `FindOrInsertLocked`, against the chunk row itself. -/
def findOrInsertRow (out : BatchOutput) (input : BatchProbeInput) : Except String BatchOutput :=
  let row := (chunk, input.rowIdx)
  match out.1.probe input.hash fun r => matchGroupAt layout.toTupleDataLayout out.2.1 r row with
  | .found existing => .ok (out.1, out.2.1, out.2.2 ++ [some ⟨input.rowIdx, existing, false⟩])
  | .empty slot =>
    match out.2.1.appendRow with
    | none => .error "pg_yaap: local hash aggregate row capacity exceeded"
    | some (dst, candidate) => do
      let tdc ← scatterGroup layout dst candidate row
      return (out.1.setEntry slot (hashSalt input.hash) candidate, tdc,
        out.2.2 ++ [some ⟨input.rowIdx, candidate, true⟩])
  | .full => .error "pg_yaap: AggregateHashTable full (capacity=%u)"

/-- The rows of a batch one at a time, in order. -/
def findOrInsertInOrder (aht : AggregateHashTable) (t : TupleDataCollection)
    (inputs : List BatchProbeInput) : Except String BatchOutput :=
  inputs.foldlM (findOrInsertRow layout chunk) (aht, t, [])

end Definitions
end AggregateHashTable
end PgYaap
