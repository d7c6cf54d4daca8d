import Mathlib
import PgYaap.TransitionSystem

/-! # The bounded task queue in shared memory

`DsmTaskQueue` is a bounded ring of cells. Each cell carries a 32-bit sequence
number beside its task descriptor; a producer may write the cell of position
`pos` when the sequence equals `pos`, a consumer may read it when the sequence
equals `pos + 1`, and popping sets it to `pos + capacity`. Two cursors count the
positions handed to producers and to consumers.

Every shared access of `TryPush`, `TryPop` and `TryPopForWorker` is one step of
the machine below, so a run is an arbitrary interleaving of the operations of
arbitrarily many processes. The cursors are 64 bits wide and only count up;
they are natural numbers here, while the sequence numbers keep their 32 bits
and wrap. Latches and the worker wake-ups carry no data and are left out. -/
namespace PgYaap

/-- The kind of a scheduled task. -/
inductive TaskKind
  | run
  | combine
  | finalize
deriving DecidableEq, Repr

/-- The plain record a task is published as. -/
structure TaskDescriptor where
  pipelineId : UInt32
  eventId : UInt32
  partitionId : UInt32
  workerIndex : Int32
  kind : TaskKind
deriving DecidableEq, Repr

/-- A capacity accepted by `InitInPlace`: at least two, and a power of two by
the bit test of the source. -/
structure QueueCapacity where
  val : UInt32
  isPow2 : 2 ≤ val ∧ val &&& (val - 1) = 0

structure DsmTaskQueueCell where
  sequence : UInt32
  desc : TaskDescriptor

/-- The queue as it lies in shared memory. -/
structure DsmTaskQueue where
  capacity : QueueCapacity
  enqueuePos : Nat
  dequeuePos : Nat
  cells : Nat → DsmTaskQueueCell

namespace DsmTaskQueue

/-- The zeroed descriptor `InitInPlace` leaves in every cell. -/
def zeroDescriptor : TaskDescriptor := ⟨0, 0, 0, 0, .run⟩

/-- `InitInPlace`: cell `i` starts with sequence `i`. -/
def initInPlace (capacity : QueueCapacity) : DsmTaskQueue where
  capacity := capacity
  enqueuePos := 0
  dequeuePos := 0
  cells i := ⟨UInt32.ofNat i, zeroDescriptor⟩

/-- The capacity as a natural number. -/
def cap (q : DsmTaskQueue) : Nat := q.capacity.val.toNat

/-- The index `pos & mask_` of the cell that serves a position. -/
def slot (q : DsmTaskQueue) (pos : Nat) : Nat := pos &&& (q.cap - 1)

/-- The sequence number of the cell that serves a position. -/
def sequenceAt (q : DsmTaskQueue) (pos : Nat) : UInt32 := (q.cells (q.slot pos)).sequence

/-- The descriptor held by the cell that serves a position. -/
def descAt (q : DsmTaskQueue) (pos : Nat) : TaskDescriptor := (q.cells (q.slot pos)).desc

/-- Store into the cell that serves a position. -/
def setCell (q : DsmTaskQueue) (pos : Nat) (cell : DsmTaskQueueCell) : DsmTaskQueue :=
  { q with cells := Function.update q.cells (q.slot pos) cell }

def setSequence (q : DsmTaskQueue) (pos : Nat) (s : UInt32) : DsmTaskQueue :=
  q.setCell pos { q.cells (q.slot pos) with sequence := s }

def setDesc (q : DsmTaskQueue) (pos : Nat) (d : TaskDescriptor) : DsmTaskQueue :=
  q.setCell pos { q.cells (q.slot pos) with desc := d }

/-- `(int64_t) seq - (int64_t) (uint32_t) want`. -/
def diff (seq : UInt32) (want : Nat) : Int := (seq.toNat : Int) - ((UInt32.ofNat want).toNat : Int)

end DsmTaskQueue

namespace QueueMachine
open DsmTaskQueue

/-- The operations a process can call. -/
inductive Op
  | tryPush (desc : TaskDescriptor)
  | tryPop
  | tryPopForWorker (workerIndex : Int32)
deriving DecidableEq

/-- Where a process stands inside an operation, with the locals it holds there.
A consumer's `aff` is the worker it pops for, if any. Each constructor other
than `idle` names the shared access the process performs next. -/
inductive Pc
  | idle
  | pushLoad (desc : TaskDescriptor)
  | pushSequence (desc : TaskDescriptor) (pos : Nat)
  | pushClaim (desc : TaskDescriptor) (pos : Nat)
  | pushWrite (desc : TaskDescriptor) (pos : Nat)
  | pushPublish (pos : Nat)
  | popLoad (aff : Option Int32)
  | popSequence (aff : Option Int32) (pos : Nat)
  | popPeek (workerIndex : Int32) (pos : Nat)
  | popClaim (aff : Option Int32) (pos : Nat)
  | popCopy (aff : Option Int32) (pos : Nat)
  | popRelease (aff : Option Int32) (pos : Nat) (out : TaskDescriptor)
deriving DecidableEq

/-- One successful pop: the position it consumed, the worker it was called for
and the descriptor it returned. -/
structure Pop where
  pos : Nat
  aff : Option Int32
  desc : TaskDescriptor
deriving DecidableEq

/-- A configuration: the shared queue, the program counter of every process,
and the history. `pushes` lists the descriptors in the order in which their
positions were claimed, so position `p` belongs to entry `p`; `published` and
`claims` list positions in the order of the publishing stores and of the
successful consumer compare-and-swaps; `pops` lists the pops that returned. -/
structure Config (Process : Type) where
  queue : DsmTaskQueue
  pc : Process → Pc
  pushes : List TaskDescriptor
  published : List Nat
  claims : List Nat
  pops : List Pop

variable {Process : Type} [DecidableEq Process]

/-- Move one process; the others stay where they are. -/
def Config.goto (c : Config Process) (t : Process) (pc : Pc) : Config Process :=
  { c with pc := Function.update c.pc t pc }

/-- Entry of an operation, up to its first shared access. -/
def Op.entry : Op → Pc
  | tryPush desc => .pushLoad desc
  | tryPop => .popLoad none
  | tryPopForWorker w => .popLoad (some w)

/-- The next shared access of process `t`. -/
def Config.run (c : Config Process) (t : Process) : Config Process :=
  match c.pc t with
  | .idle => c
  | .pushLoad desc => c.goto t (.pushSequence desc c.queue.enqueuePos)
  | .pushSequence desc pos =>
    let d := diff (c.queue.sequenceAt pos) pos
    if d = 0 then c.goto t (.pushClaim desc pos)
    else if d < 0 then c.goto t .idle
    else c.goto t (.pushLoad desc)
  | .pushClaim desc pos =>
    if c.queue.enqueuePos = pos then
      { c.goto t (.pushWrite desc pos) with
        queue := { c.queue with enqueuePos := pos + 1 }
        pushes := c.pushes ++ [desc] }
    else c.goto t (.pushSequence desc c.queue.enqueuePos)
  | .pushWrite desc pos =>
    { c.goto t (.pushPublish pos) with queue := c.queue.setDesc pos desc }
  | .pushPublish pos =>
    { c.goto t .idle with
      queue := c.queue.setSequence pos (UInt32.ofNat (pos + 1))
      published := c.published ++ [pos] }
  | .popLoad aff => c.goto t (.popSequence aff c.queue.dequeuePos)
  | .popSequence aff pos =>
    let d := diff (c.queue.sequenceAt pos) (pos + 1)
    if d = 0 then
      match aff with
      | none => c.goto t (.popClaim none pos)
      | some w => c.goto t (.popPeek w pos)
    else if d < 0 then c.goto t .idle
    else c.goto t (.popLoad aff)
  | .popPeek w pos =>
    if (c.queue.descAt pos).workerIndex ≠ w then c.goto t .idle
    else c.goto t (.popClaim (some w) pos)
  | .popClaim aff pos =>
    if c.queue.dequeuePos = pos then
      { c.goto t (.popCopy aff pos) with
        queue := { c.queue with dequeuePos := pos + 1 }
        claims := c.claims ++ [pos] }
    else c.goto t (.popSequence aff c.queue.dequeuePos)
  | .popCopy aff pos => c.goto t (.popRelease aff pos (c.queue.descAt pos))
  | .popRelease aff pos out =>
    { c.goto t .idle with
      queue := c.queue.setSequence pos (UInt32.ofNat (pos + c.queue.cap))
      pops := c.pops ++ [⟨pos, aff, out⟩] }

/-- What the environment may do next: an idle process calls an operation, or a
process inside an operation performs its next shared access. -/
inductive Action (Process : Type)
  | call (t : Process) (op : Op)
  | run (t : Process)

def Config.step (c : Config Process) : Action Process → Config Process
  | .call t op => if c.pc t = .idle then c.goto t op.entry else c
  | .run t => c.run t

/-- The empty queue with every process idle. -/
def Config.initial (capacity : QueueCapacity) : Config Process where
  queue := initInPlace capacity
  pc _ := .idle
  pushes := []
  published := []
  claims := []
  pops := []

/-- All interleavings over a queue of the given capacity. -/
def system (Process : Type) [DecidableEq Process] (capacity : QueueCapacity) :
    TransitionSystem (Config Process) (Action Process) :=
  .ofFunction (· = Config.initial capacity) Config.step

end QueueMachine
end PgYaap
