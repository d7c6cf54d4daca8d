import Mathlib
import PgYaap.DsmTaskQueue
import PgYaap.TransitionSystem

/-! # Events, tasks and the leader loop

The leader turns every pipeline into three events, RUN, COMBINE and FINALIZE,
and schedules an event once the events it depends on have finished. Scheduling
writes the task counter of the event and pushes its task descriptors; workers
pop them, execute them, push them again while they are not finished, and
decrement the counter otherwise. The leader loop finishes an event when its
counter is zero, and runs FINALIZE itself.

The leader is one process, the workers are others. Each access to the task
queue, to a task counter or to the error and shutdown flags is one step, so a
run is any interleaving. What the leader does in private memory (event states,
pending dependency counts) is split at its function calls: a stack of pending
calls stands for the C++ call stack. The queue appears here as the first-in
first-out queue it implements; a push may fail whenever the queue may be full. -/
namespace PgYaap
namespace EventScheduler

inductive EventState
  | pending
  | scheduled
  | finished
  | aborted
deriving DecidableEq

/-- What a sink is, as far as scheduling looks at it. -/
inductive SinkType
  | hashAggregate
  | perfectHashAggregate
  | hashJoin
  | crossProduct
  | topN
  | output
  | other
deriving DecidableEq

/-- `CombineIsTrivial` of the sinks. -/
def SinkType.combineIsTrivial : SinkType → Bool
  | .topN | .output => true
  | _ => false

/-- `FinalizeIsTrivial` of the sinks. -/
def SinkType.finalizeIsTrivial : SinkType → Bool
  | .output => true
  | _ => false

/-- A pipeline: the thread bounds of its source, operators and sink, the sink,
the partition count of a hash aggregate sink, and the pipelines it waits for. -/
structure Pipeline where
  parallelSource : Bool
  sourceMaxThreads : Int32
  opMaxThreads : List Int32
  sinkMaxThreads : Int32
  sink : SinkType
  partitionCount : UInt32
  dependsOn : List Nat

/-- The pipelines of a query, by id, and the number of workers. Event ids are
32 bits wide, and a pipeline only depends on pipelines of the same query. -/
structure PipelineGraph where
  pipelines : List Pipeline
  workerCount : UInt32
  ids_fit : 3 * pipelines.length ≤ 2 ^ 32
  deps_lt : ∀ p ∈ pipelines, ∀ d ∈ p.dependsOn, d < pipelines.length

/-- Event ids: events are published in the order RUN, COMBINE, FINALIZE for each
pipeline. -/
def runId (pid : Nat) : Nat := pid * 3

def combineId (pid : Nat) : Nat := pid * 3 + 1

def finalizeId (pid : Nat) : Nat := pid * 3 + 2

def pipelineOf (e : Nat) : Nat := e / 3

def kindOf (e : Nat) : TaskKind :=
  if e % 3 = 0 then .run else if e % 3 = 1 then .combine else .finalize

/-- One step of the bound in `DeriveRunTaskCount`: non-positive values are no bound. -/
def applyBound (bound : UInt32) (v : Int32) : UInt32 :=
  if 0 < v then min bound v.toUInt32 else bound

/-- `DeriveRunTaskCount`: only a parallel source lets a pipeline run on more
than one worker. -/
def deriveRunTaskCount (workerCount : UInt32) (p : Pipeline) : UInt32 :=
  let bound := applyBound workerCount (if p.parallelSource then p.sourceMaxThreads else 1)
  let bound := p.opMaxThreads.foldl applyBound bound
  let bound := applyBound bound p.sinkMaxThreads
  if bound = 0 then 1 else bound

/-- One dependency edge: `child` waits for `parent`. -/
structure Edge where
  child : Nat
  parent : Nat
deriving DecidableEq

/-- The calls of `AddDependency` in `BuildEvents`, in order. -/
def PipelineGraph.edges (g : PipelineGraph) : List Edge :=
  (List.range g.pipelines.length).flatMap
      (fun p => [⟨combineId p, runId p⟩, ⟨finalizeId p, combineId p⟩]) ++
    g.pipelines.zipIdx.flatMap (fun x => x.1.dependsOn.map fun d => ⟨runId x.2, finalizeId d⟩)

/-- The events as `BuildEvents` leaves them: the pending count of each event and
the events it notifies. -/
structure EventGraph where
  pendingDependencies : Nat → Int
  dependents : Nat → List Nat

def EventGraph.addDependency (eg : EventGraph) (e : Edge) : EventGraph where
  pendingDependencies :=
    Function.update eg.pendingDependencies e.child (eg.pendingDependencies e.child + 1)
  dependents := Function.update eg.dependents e.parent (eg.dependents e.parent ++ [e.child])

def PipelineGraph.buildEvents (g : PipelineGraph) : EventGraph :=
  g.edges.foldl EventGraph.addDependency ⟨fun _ => 0, fun _ => []⟩

/-- Pending calls of the leader, innermost first. -/
inductive LeaderCall
  | trySchedule (e : Nat) (mark : Bool)
  | markScheduled (e : Nat)
  | pushTask (e : Nat) (i : Nat)
  | finishEvent (e : Nat)
  | abort (e : Nat)
  | completeDependency (e : Nat) (upstreamAborted : Bool)
  | markFinished (e : Nat)
deriving DecidableEq

inductive LeaderStatus
  | looping
  | done
  | failed
deriving DecidableEq

inductive TaskExecutionResult
  | finished
  | notFinished
  | error
deriving DecidableEq

/-- Where a worker stands in its task loop. -/
inductive WorkerPc
  | idle
  | popped (desc : TaskDescriptor)
  | executing (desc : TaskDescriptor)
  | repushing (desc : TaskDescriptor)
  | decrementing (desc : TaskDescriptor)
  | exited
deriving DecidableEq

/-- What a run records, in order of time. -/
inductive HistoryEvent
  | enqueued (desc : TaskDescriptor)
  | started (desc : TaskDescriptor)
  | returned (desc : TaskDescriptor) (result : TaskExecutionResult)
  | finalized (pid : Nat)
  | eventFinished (e : Nat)
deriving DecidableEq

/-- A configuration: shared memory (task counters, queue, error and shutdown
flags), the private memory of the leader, the workers, and the record of the
run. `taskCount` remembers how many queue tasks an event was scheduled with and
`completed` the tasks whose completion was counted, in order. -/
structure Config (W : Nat) where
  tasksRemaining : Nat → UInt32
  queue : List TaskDescriptor
  workerError : Bool
  shutdownRequested : Bool
  state : Nat → EventState
  sawAborted : Nat → Bool
  events : EventGraph
  runTaskCounts : Nat → UInt32
  stack : List LeaderCall
  scan : Nat
  progress : Bool
  eventScheduled : Nat → Bool
  eventFinished : Nat → Bool
  status : LeaderStatus
  worker : Fin W → WorkerPc
  taskCount : Nat → Nat
  completed : List TaskDescriptor
  history : List HistoryEvent

section Scheduling
variable (g : PipelineGraph) {W : Nat}

/-- The RUN fan-out of a pipeline. -/
def PipelineGraph.runTaskCount (pid : Nat) : UInt32 :=
  match g.pipelines[pid]? with
  | some p => deriveRunTaskCount g.workerCount p
  | none => 1

/-- The sink of a pipeline. -/
def PipelineGraph.sinkOf (pid : Nat) : SinkType :=
  match g.pipelines[pid]? with
  | some p => p.sink
  | none => .other

/-- The partition count in the payload of a hash aggregate sink. -/
def PipelineGraph.partitionCount (pid : Nat) : UInt32 :=
  match g.pipelines[pid]? with
  | some p => p.partitionCount
  | none => 1

/-- `RememberedRunTaskCount`: an entry never written counts as one. -/
def rememberedRunTaskCount (c : Config W) (pid : Nat) : UInt32 :=
  if c.runTaskCounts pid ≠ 0 then c.runTaskCounts pid else 1

/-- The number of COMBINE tasks that `EnqueueTasks` issues for a nontrivial sink. -/
def combineTaskCount (c : Config W) (pid : Nat) : UInt32 :=
  match g.sinkOf pid with
  | .hashAggregate => g.partitionCount pid
  | .perfectHashAggregate => 1
  | _ => rememberedRunTaskCount c pid

/-- The descriptor of the `i`-th task of a RUN or COMBINE event. -/
def taskDescriptor (e : Nat) (i : Nat) : TaskDescriptor :=
  let pid := pipelineOf e
  if kindOf e = .combine ∧ g.sinkOf pid = .hashAggregate then
    { pipelineId := UInt32.ofNat pid
      eventId := UInt32.ofNat e
      partitionId := UInt32.ofNat i
      workerIndex := (UInt32.ofNat i % g.runTaskCount pid).toInt32
      kind := kindOf e }
  else
    { pipelineId := UInt32.ofNat pid
      eventId := UInt32.ofNat e
      partitionId := 0xFFFFFFFF
      workerIndex := (UInt32.ofNat i).toInt32
      kind := kindOf e }

/-- The event a descriptor belongs to. -/
def eventOf (d : TaskDescriptor) : Nat := d.eventId.toNat

/-- `EnqueueTasks` up to its first push: the task counter is written, and a
trivial combine or finalize finishes the event at once. -/
def Config.enqueueTasks (c : Config W) (e : Nat) (rest : List LeaderCall) : Config W :=
  let pid := pipelineOf e
  match kindOf e with
  | .run =>
    let count := g.runTaskCount pid
    { c with
      runTaskCounts := Function.update c.runTaskCounts pid (max 1 count)
      tasksRemaining := Function.update c.tasksRemaining e count
      taskCount := Function.update c.taskCount e count.toNat
      stack := .pushTask e 0 :: rest }
  | .combine =>
    if (g.sinkOf pid).combineIsTrivial then
      { c with
        tasksRemaining := Function.update c.tasksRemaining e 0
        stack := .finishEvent e :: rest }
    else
      let count := combineTaskCount g c pid
      { c with
        tasksRemaining := Function.update c.tasksRemaining e count
        taskCount := Function.update c.taskCount e count.toNat
        stack := .pushTask e 0 :: rest }
  | .finalize =>
    if (g.sinkOf pid).finalizeIsTrivial then
      { c with
        tasksRemaining := Function.update c.tasksRemaining e 0
        history := c.history ++ [.finalized pid]
        stack := .finishEvent e :: rest }
    else
      { c with
        tasksRemaining := Function.update c.tasksRemaining e 1
        stack := rest }

/-- One pending call of the leader. `ok` says whether a push finds room. -/
def Config.leaderCall (c : Config W) (ok : Bool) (rest : List LeaderCall) :
    LeaderCall → Config W
  | .trySchedule e mark =>
    if c.state e = .pending then
      Config.enqueueTasks g { c with state := Function.update c.state e .scheduled } e
        (if mark then .markScheduled e :: rest else rest)
    else { c with stack := rest }
  | .markScheduled e =>
    { c with eventScheduled := Function.update c.eventScheduled e true, stack := rest }
  | .pushTask e i =>
    if i < c.taskCount e then
      if ok then
        { c with
          queue := c.queue ++ [taskDescriptor g e i]
          history := c.history ++ [.enqueued (taskDescriptor g e i)]
          stack := .pushTask e (i + 1) :: rest }
      else
        { c with tasksRemaining := Function.update c.tasksRemaining e 0, status := .failed }
    else { c with stack := rest }
  | .finishEvent e =>
    let c' : Config W := { c with
      state := Function.update c.state e .finished
      history := c.history ++ [.eventFinished e] }
    if c.state e = .finished ∨ c.state e = .aborted then { c' with stack := rest }
    else
      { c' with
        events := { c.events with dependents := Function.update c.events.dependents e [] }
        stack := (c.events.dependents e).map (fun d => .completeDependency d false) ++ rest }
  | .abort e =>
    let c' : Config W := { c with state := Function.update c.state e .aborted }
    if c.state e = .aborted then { c' with stack := rest }
    else
      { c' with
        events := { c.events with dependents := Function.update c.events.dependents e [] }
        stack := (c.events.dependents e).map (fun d => .completeDependency d true) ++ rest }
  | .completeDependency e upstreamAborted =>
    let prev := c.events.pendingDependencies e
    let c' : Config W := { c with
      sawAborted := Function.update c.sawAborted e (c.sawAborted e || upstreamAborted)
      events := { c.events with
        pendingDependencies := Function.update c.events.pendingDependencies e (prev - 1) } }
    if prev ≠ 1 then { c' with stack := rest }
    else if c'.sawAborted e then { c' with stack := .abort e :: rest }
    else { c' with stack := .trySchedule e false :: rest }
  | .markFinished e =>
    { c with
      eventFinished := Function.update c.eventFinished e true, progress := true, stack := rest }

/-- The number of events. -/
def PipelineGraph.eventCount (g : PipelineGraph) : Nat := 3 * g.pipelines.length

/-- The body of the leader's loop over the events, for one event. `ok` says
whether the finalize task returns. -/
def Config.inspect (c : Config W) (ok : Bool) (e : Nat) : Config W :=
  let scheduled := c.eventScheduled e || c.state e = .scheduled
  let c := { c with
    eventScheduled := Function.update c.eventScheduled e scheduled, scan := e + 1 }
  if !c.eventFinished e && c.state e = .aborted then
    { c with eventFinished := Function.update c.eventFinished e true, progress := true }
  else if kindOf e = .finalize && scheduled && !c.eventFinished e && c.state e = .scheduled &&
      0 < c.tasksRemaining e then
    if ok then
      { c with
        history := c.history ++ [.finalized (pipelineOf e)]
        tasksRemaining := Function.update c.tasksRemaining e 0
        stack := [.finishEvent e, .markFinished e] }
    else { c with status := .failed }
  else if scheduled && !c.eventFinished e && c.tasksRemaining e = 0 then
    { c with stack := [.finishEvent e, .markFinished e] }
  else c

/-- `AllEventsFinished`. -/
def allEventsFinished (c : Config W) : Bool :=
  (List.range g.eventCount).all fun e => c.state e = .finished || c.state e = .aborted

/-- One step of the leader: the innermost pending call, or else the loop. -/
def Config.leader (c : Config W) (ok : Bool) : Config W :=
  match c.status with
  | .looping =>
    match c.stack with
    | call :: rest => c.leaderCall g ok rest call
    | [] =>
      if c.scan = 0 && c.workerError then { c with status := .failed }
      else if c.scan < g.eventCount then c.inspect ok c.scan
      else if c.progress then { c with scan := 0, progress := false }
      else if allEventsFinished g c then { c with status := .done, shutdownRequested := true }
      else { c with scan := 0 }
  | _ => c

def Config.moveWorker (c : Config W) (w : Fin W) (pc : WorkerPc) : Config W :=
  { c with worker := Function.update c.worker w pc }

/-- A worker that caught an error reports it and asks everybody to stop. -/
def Config.workerFails (c : Config W) (w : Fin W) : Config W :=
  { c.moveWorker w .exited with workerError := true, shutdownRequested := true }

/-- One step of worker `w`. `result` is what an executed task returns, and
whether a push finds room. -/
def Config.workerStep (c : Config W) (w : Fin W) (result : TaskExecutionResult) (ok : Bool) :
    Config W :=
  match c.worker w with
  | .idle =>
    if c.shutdownRequested then c.moveWorker w .exited
    else
      match c.queue with
      | d :: rest =>
        -- `TryPopForWorker` takes the head only when it is addressed to this worker
        if d.workerIndex = Int32.ofNat w then { c.moveWorker w (.popped d) with queue := rest }
        else c
      | [] => c
  | .popped d =>
    if c.shutdownRequested then c.moveWorker w .exited
    else if g.pipelines.length ≤ d.pipelineId.toNat then
      { c.moveWorker w .exited with workerError := true }
    else if d.kind = .finalize then { c.moveWorker w .exited with workerError := true }
    else { c.moveWorker w (.executing d) with history := c.history ++ [.started d] }
  | .executing d =>
    let c' : Config W := { c with history := c.history ++ [.returned d result] }
    match result with
    | .finished => c'.moveWorker w (.decrementing d)
    | .notFinished => c'.moveWorker w (.repushing d)
    | .error => c'.workerFails w
  | .repushing d =>
    if ok then { c.moveWorker w .idle with queue := c.queue ++ [d] } else c.workerFails w
  | .decrementing d =>
    { c.moveWorker w .idle with
      tasksRemaining :=
        Function.update c.tasksRemaining (eventOf d) (c.tasksRemaining (eventOf d) - 1)
      completed := c.completed ++ [d] }
  | .exited => c

/-- Who moves next, with the outcomes that the environment decides. -/
inductive Action (W : Nat)
  | leader (ok : Bool)
  | worker (w : Fin W) (result : TaskExecutionResult) (ok : Bool)

def Config.step (c : Config W) : Action W → Config W
  | .leader ok => c.leader g ok
  | .worker w result ok => c.workerStep g w result ok

/-- The pipelines without dependencies, which the leader schedules first. -/
def PipelineGraph.roots (g : PipelineGraph) : List Nat :=
  (g.pipelines.zipIdx.filter fun x => x.1.dependsOn.isEmpty).map Prod.snd

/-- Before the first event is scheduled. -/
def Config.initial : Config W where
  tasksRemaining _ := 0
  queue := []
  workerError := false
  shutdownRequested := false
  state _ := .pending
  sawAborted _ := false
  events := g.buildEvents
  runTaskCounts _ := 0
  stack := g.roots.map fun pid => .trySchedule (runId pid) true
  scan := 0
  progress := false
  eventScheduled _ := false
  eventFinished _ := false
  status := .looping
  worker _ := .idle
  taskCount _ := 0
  completed := []
  history := []

/-- All runs of the scheduler for a pipeline graph and `W` workers. -/
def system (W : Nat) : TransitionSystem (Config W) (Action W) :=
  .ofFunction (· = Config.initial g) (Config.step g)

end Scheduling
end EventScheduler
end PgYaap
