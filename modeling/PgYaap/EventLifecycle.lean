import Mathlib
import PgYaap.EventScheduler

/-! # The lifecycle of events

The class `Event` by itself, without the leader loop around it: any graph of
dependencies, any `Schedule` hooks, and any sequence of the calls an event
offers. `CompleteDependency` counts a dependency down and, at zero, schedules or
aborts; `FinishEvent` and `Abort` notify the dependents, which may schedule,
abort or finish them in turn. As in the scheduler, a stack of pending calls
stands for the C++ call stack, so that one step runs the innermost call up to
the calls it makes. All events live in one process: an outside call comes only
when no call is pending, except for the task counters, which the workers
decrement at any time. -/
namespace PgYaap
namespace EventLifecycle

open EventScheduler (EventState Edge EventGraph)

/-- What the `Schedule` hook of an event does: push tasks, or find that there is
nothing to do and finish the event at once. -/
inductive ScheduleHook
  | enqueuesTasks (count : UInt32)
  | finishesAtOnce

/-- The dependencies of a set of events, in the order of the calls of
`AddDependency`, and the hook of each event. -/
structure EventSystem where
  edges : List Edge
  schedule : Nat → ScheduleHook

/-- Pending calls, innermost first. A notification remembers who sent it;
`clearDependents` is what `NotifyDependents` does after its loop. -/
inductive Call
  | trySchedule (e : Nat)
  | finishEvent (e : Nat)
  | abort (e : Nat)
  | completeDependency (edge : Edge) (upstreamAborted : Bool)
  | clearDependents (e : Nat)
deriving DecidableEq

/-- What a run records, in order of time. `finished` and `aborted` are stores of
that state. -/
inductive Occurrence
  | scheduled (e : Nat)
  | finished (e : Nat)
  | aborted (e : Nat)
  | notified (edge : Edge)
deriving DecidableEq

/-- The events of a run: their states, their dependency counts and flags, the
counters of their tasks, the pending calls, and the record of the run. -/
structure Config where
  state : Nat → EventState
  events : EventGraph
  sawAborted : Nat → Bool
  tasksRemaining : Nat → UInt32
  stack : List Call
  history : List Occurrence

/-- `NotifyDependents`: one call per dependent, and then the list is cleared. -/
def Config.notifyDependents (c : Config) (e : Nat) (propagateAbort : Bool) (rest : List Call) :
    Config :=
  { c with
    stack := (c.events.dependents e).map (fun d => .completeDependency ⟨d, e⟩ propagateAbort) ++
      .clearDependents e :: rest }

/-- The innermost pending call. -/
def Config.runCall (S : EventSystem) (c : Config) (rest : List Call) : Call → Config
  | .trySchedule e =>
    if c.state e = .pending then
      let c : Config := { c with
        state := Function.update c.state e .scheduled
        history := c.history ++ [.scheduled e] }
      match S.schedule e with
      | .enqueuesTasks count =>
        { c with tasksRemaining := Function.update c.tasksRemaining e count, stack := rest }
      | .finishesAtOnce =>
        { c with
          tasksRemaining := Function.update c.tasksRemaining e 0
          stack := .finishEvent e :: rest }
    else { c with stack := rest }
  | .finishEvent e =>
    -- the exchange stores FINISHED before the previous state is looked at
    let c' : Config := { c with
      state := Function.update c.state e .finished
      history := c.history ++ [.finished e] }
    if c.state e = .finished ∨ c.state e = .aborted then { c' with stack := rest }
    else c'.notifyDependents e false rest
  | .abort e =>
    let c' : Config := { c with
      state := Function.update c.state e .aborted
      history := c.history ++ [.aborted e] }
    if c.state e = .aborted then { c' with stack := rest }
    else c'.notifyDependents e true rest
  | .completeDependency edge upstreamAborted =>
    let e := edge.child
    let prev := c.events.pendingDependencies e
    let c' : Config := { c with
      sawAborted := Function.update c.sawAborted e (c.sawAborted e || upstreamAborted)
      events := { c.events with
        pendingDependencies := Function.update c.events.pendingDependencies e (prev - 1) }
      history := c.history ++ [.notified edge] }
    if prev ≠ 1 then { c' with stack := rest }
    else if c'.sawAborted e then { c' with stack := .abort e :: rest }
    else { c' with stack := .trySchedule e :: rest }
  | .clearDependents e =>
    { c with
      events := { c.events with dependents := Function.update c.events.dependents e [] }
      stack := rest }

/-- What happens next: the innermost pending call runs, or one of the calls that
the outside may make. -/
inductive Label
  | run
  | trySchedule (e : Nat)
  | finishTask (e : Nat)
  | finishEvent (e : Nat)
  | abort (e : Nat)
deriving DecidableEq

def Config.run (S : EventSystem) (c : Config) : Config :=
  match c.stack with
  | [] => c
  | call :: rest => c.runCall S rest call

/-- An outside call begins only when the one before it has returned. -/
def Config.invoke (c : Config) (call : Call) : Config :=
  if c.stack = [] then { c with stack := [call] } else c

def Config.step (S : EventSystem) (c : Config) : Label → Config
  | .run => c.run S
  | .trySchedule e => c.invoke (.trySchedule e)
  | .finishTask e =>
    { c with tasksRemaining := Function.update c.tasksRemaining e (c.tasksRemaining e - 1) }
  | .finishEvent e => c.invoke (.finishEvent e)
  | .abort e => c.invoke (.abort e)

/-- The events after `AddDependency` was called for every edge. -/
def Config.initial (S : EventSystem) : Config where
  state _ := .pending
  events := S.edges.foldl EventGraph.addDependency ⟨fun _ => 0, fun _ => []⟩
  sawAborted _ := false
  tasksRemaining _ := 0
  stack := []
  history := []

/-- All runs: any calls, in any order. -/
def system (S : EventSystem) : TransitionSystem Config Label :=
  .ofFunction (· = Config.initial S) (Config.step S)

/-- All dependencies of an event are FINISHED. -/
def Config.DependenciesFinished (S : EventSystem) (c : Config) (e : Nat) : Prop :=
  ∀ x ∈ S.edges, x.child = e → c.state x.parent = .finished

/-- The outside calls that the state of the events is ready for: scheduling or
finishing an event whose dependencies are FINISHED, never finishing an ABORTED
event, never aborting a FINISHED one. -/
def Config.Admits (S : EventSystem) (c : Config) : Label → Prop
  | .run => True
  | .finishTask _ => True
  | .trySchedule e => c.state e = .pending → c.DependenciesFinished S e
  | .finishEvent e => c.state e ≠ .aborted ∧ c.DependenciesFinished S e
  | .abort e => c.state e ≠ .finished

instance (S : EventSystem) (c : Config) (e : Nat) : Decidable (c.DependenciesFinished S e) :=
  inferInstanceAs (Decidable (∀ x ∈ S.edges, _))

instance (S : EventSystem) (c : Config) (l : Label) : Decidable (c.Admits S l) :=
  match l with
  | .run => isTrue trivial
  | .finishTask _ => isTrue trivial
  | .trySchedule _ => inferInstanceAs (Decidable (_ → _))
  | .finishEvent _ => inferInstanceAs (Decidable (_ ∧ _))
  | .abort _ => inferInstanceAs (Decidable (_ ≠ _))

/-- The runs all of whose outside calls are admitted. -/
def admittedSystem (S : EventSystem) : TransitionSystem Config Label :=
  (system S).restrict (Config.Admits S)

/-- `e` waits for `p`. -/
def EventSystem.DependsOn (S : EventSystem) (e p : Nat) : Prop := ⟨e, p⟩ ∈ S.edges

/-- A state that no event leaves. -/
def Settled (s : EventState) : Prop := s = .finished ∨ s = .aborted

instance (s : EventState) : Decidable (Settled s) := inferInstanceAs (Decidable (_ ∨ _))

/-- **The lifecycle of events**, for what one run has recorded so far. -/
structure Lifecycle (S : EventSystem) (c : Config) : Prop where
  /-- an event is scheduled only after all of its dependencies finished -/
  scheduled_ready : ∀ pre e post, c.history = pre ++ .scheduled e :: post →
    ∀ x ∈ S.edges, x.child = e → .finished x.parent ∈ pre
  /-- no dependency is notified before its parent is settled, or more than once -/
  notified_settled : ∀ x, .notified x ∈ c.history → Settled (c.state x.parent)
  notified_le : ∀ x, c.history.count (.notified x) ≤ S.edges.count x
  /-- once the calls have returned, every dependency on a settled event was notified -/
  notified_once : c.stack = [] → ∀ x, Settled (c.state x.parent) →
    c.history.count (.notified x) = S.edges.count x
  finished_absorbing : ∀ e, .finished e ∈ c.history → c.state e = .finished
  aborted_absorbing : ∀ e, .aborted e ∈ c.history → c.state e = .aborted
  /-- nothing downstream of an aborted event is scheduled -/
  downstream : ∀ e p, .aborted p ∈ c.history → Relation.TransGen S.DependsOn e p →
    .scheduled e ∉ c.history

end EventLifecycle
end PgYaap
