import Mathlib
import PgYaap.EventScheduler

/-! # The order of tasks and events

Three groups of facts carry the scheduler. The tasks of an event that were
enqueued and not yet counted are each in one place, in the queue or with one
worker, so the task counter of an event plus the number of its counted tasks is
the number it was scheduled with, and a counter of zero means that every task
of the event has returned as finished. The pending count of an event is the
number of its unfinished parents plus the notifications still on the leader's
stack, so an event is scheduled only when all its parents have finished. The
record of the run then obeys the order in which these facts were established. -/
namespace PgYaap
namespace EventScheduler

section Descriptors
variable {g : PipelineGraph}

theorem eventOf_taskDescriptor {e : Nat} (he : e < 2 ^ 32) (i : Nat) :
    eventOf (taskDescriptor g e i) = e := by
  have hid : (UInt32.ofNat e).toNat = e := by
    rw [UInt32.toNat_ofNat', Nat.mod_eq_of_lt he]
  unfold eventOf taskDescriptor
  simp only
  split
  · exact hid
  · exact hid

@[simp] theorem taskDescriptor_kind (e : Nat) (i : Nat) :
    (taskDescriptor g e i).kind = kindOf e := by
  unfold taskDescriptor; simp only; split <;> rfl

theorem taskDescriptor_pipelineId {e : Nat} (he : e < 2 ^ 32) (i : Nat) :
    (taskDescriptor g e i).pipelineId.toNat = pipelineOf e := by
  have hid : (UInt32.ofNat (pipelineOf e)).toNat = pipelineOf e := by
    rw [UInt32.toNat_ofNat', Nat.mod_eq_of_lt]
    unfold pipelineOf
    omega
  unfold taskDescriptor
  simp only
  split
  · exact hid
  · exact hid

/-- Different tasks of an event have different descriptors. -/
theorem taskDescriptor_inj {e : Nat} {i j : Nat} (hi : i < 2 ^ 32) (hj : j < 2 ^ 32)
    (h : taskDescriptor g e i = taskDescriptor g e j) : i = j := by
  have hofNat : UInt32.ofNat i = UInt32.ofNat j → i = j := by
    intro heq
    have hnat := congrArg UInt32.toNat heq
    rwa [UInt32.toNat_ofNat', UInt32.toNat_ofNat', Nat.mod_eq_of_lt hi, Nat.mod_eq_of_lt hj] at hnat
  unfold taskDescriptor at h
  simp only at h
  split at h
  · exact hofNat (TaskDescriptor.mk.inj h).2.2.1
  · exact hofNat (congrArg Int32.toUInt32 (TaskDescriptor.mk.inj h).2.2.2.1)

end Descriptors

section Edges
variable {g : PipelineGraph}

theorem pendingDependencies_foldl (edges : List Edge) (eg : EventGraph) (e : Nat) :
    (edges.foldl EventGraph.addDependency eg).pendingDependencies e =
      eg.pendingDependencies e + edges.countP (fun x => x.child = e) := by
  induction edges generalizing eg with
  | nil => simp
  | cons x xs ih =>
    rw [List.foldl_cons, ih, List.countP_cons]
    rcases eq_or_ne e x.child with rfl | hne
    · simp [EventGraph.addDependency]; omega
    · simp [EventGraph.addDependency, hne, hne.symm]

theorem dependents_foldl (edges : List Edge) (eg : EventGraph) (p : Nat) :
    (edges.foldl EventGraph.addDependency eg).dependents p =
      eg.dependents p ++ (edges.filter fun x => x.parent = p).map Edge.child := by
  induction edges generalizing eg with
  | nil => simp
  | cons x xs ih =>
    rw [List.foldl_cons, ih]
    rcases eq_or_ne p x.parent with rfl | hne
    · simp [EventGraph.addDependency]
    · simp [EventGraph.addDependency, hne, hne.symm]

/-- Finishing a parent moves its edges from the unfinished ones to the notified ones. -/
theorem countP_finish (edges : List Edge) (unfinished : Nat → Bool) (e p : Nat)
    (hp : unfinished p = true) :
    edges.countP (fun x => x.child = e && unfinished x.parent) =
      edges.countP (fun x => x.child = e && (unfinished x.parent && x.parent ≠ p)) +
        ((edges.filter fun x => x.parent = p).map Edge.child).count e := by
  induction edges with
  | nil => rfl
  | cons x xs ih =>
    rw [List.countP_cons, List.countP_cons, ih]
    by_cases hparent : x.parent = p
    · by_cases hchild : x.child = e
      · simp [hparent, hchild, hp]; omega
      · simp [hparent, hchild]
    · by_cases hchild : x.child = e
      · simp [hparent, hchild]; omega
      · simp [hparent, hchild]

theorem mem_edges_iff (x : Edge) : x ∈ g.edges ↔
    (∃ pid < g.pipelines.length, x = ⟨combineId pid, runId pid⟩ ∨
      x = ⟨finalizeId pid, combineId pid⟩) ∨
    ∃ pid p, g.pipelines[pid]? = some p ∧ ∃ d ∈ p.dependsOn, x = ⟨runId pid, finalizeId d⟩ := by
  unfold PipelineGraph.edges
  simp only [List.mem_append, List.mem_flatMap, List.mem_range, List.mem_cons, List.not_mem_nil,
    or_false, List.mem_map, Prod.exists, List.mem_zipIdx_iff_getElem?]
  constructor
  · rintro (⟨pid, hlt, h⟩ | ⟨p, pid, hp, d, hd, rfl⟩)
    · exact Or.inl ⟨pid, hlt, h⟩
    · exact Or.inr ⟨pid, p, hp, d, hd, rfl⟩
  · rintro (⟨pid, hlt, h⟩ | ⟨pid, p, hp, d, hd, rfl⟩)
    · exact Or.inl ⟨pid, hlt, h⟩
    · exact Or.inr ⟨p, pid, hp, d, hd, rfl⟩

theorem edge_child_lt {x : Edge} (hx : x ∈ g.edges) : x.child < g.eventCount := by
  unfold PipelineGraph.eventCount
  rcases (mem_edges_iff x).mp hx with ⟨pid, hlt, rfl | rfl⟩ | ⟨pid, p, hp, d, _, rfl⟩
  · simp only [combineId]; omega
  · simp only [finalizeId]; omega
  · have hlt := (List.getElem?_eq_some_iff.mp hp).1
    simp only [runId]; omega

theorem combine_edge {pid : Nat} (h : pid < g.pipelines.length) :
    ⟨combineId pid, runId pid⟩ ∈ g.edges :=
  (mem_edges_iff _).mpr (Or.inl ⟨pid, h, Or.inl rfl⟩)

theorem run_edge {pid : Nat} {p : Pipeline} (hp : g.pipelines[pid]? = some p) {d : Nat}
    (hd : d ∈ p.dependsOn) : ⟨runId pid, finalizeId d⟩ ∈ g.edges :=
  (mem_edges_iff _).mpr (Or.inr ⟨pid, p, hp, d, hd, rfl⟩)

end Edges

/-- The task a worker holds. -/
def WorkerPc.task : WorkerPc → Option TaskDescriptor
  | .popped d | .executing d | .repushing d | .decrementing d => some d
  | .idle | .exited => none

/-- The event a pending call is about. -/
def LeaderCall.event : LeaderCall → Nat
  | .trySchedule e _ | .markScheduled e | .pushTask e _ | .finishEvent e | .abort e
  | .completeDependency e _ | .markFinished e => e

/-- A call that pushes the tasks of an event. -/
def LeaderCall.IsPush : LeaderCall → Prop
  | .pushTask _ _ => True
  | _ => False

section Invariants
variable (g : PipelineGraph) {W : Nat}

/-- Every enqueued task is a task of its event and is in one place at a time. -/
structure TaskInv (c : Config W) : Prop where
  task_of : ∀ d, .enqueued d ∈ c.history →
    ∃ i < c.taskCount (eventOf d), d = taskDescriptor g (eventOf d) i
  queue_enqueued : ∀ d ∈ c.queue, .enqueued d ∈ c.history
  held_enqueued : ∀ w d, (c.worker w).task = some d → .enqueued d ∈ c.history
  completed_enqueued : ∀ d ∈ c.completed, .enqueued d ∈ c.history
  queue_nodup : c.queue.Nodup
  completed_nodup : c.completed.Nodup
  queue_held : ∀ d ∈ c.queue, ∀ w, (c.worker w).task ≠ some d
  queue_completed : ∀ d ∈ c.queue, d ∉ c.completed
  held_completed : ∀ w d, (c.worker w).task = some d → d ∉ c.completed
  held_unique : ∀ w v d, (c.worker w).task = some d → (c.worker v).task = some d → w = v
  decrementing_returned : ∀ w d, c.worker w = .decrementing d →
    .returned d .finished ∈ c.history
  completed_returned : ∀ d ∈ c.completed, .returned d .finished ∈ c.history

/-- The task counters. -/
structure CountInv (c : Config W) : Prop where
  pending_count : ∀ e, c.state e = .pending → c.taskCount e = 0
  count_lt : ∀ e, c.taskCount e < 2 ^ 32
  finalize_count : ∀ e, kindOf e = .finalize → c.taskCount e = 0
  counter : c.status ≠ .failed → ∀ e, kindOf e ≠ .finalize →
    (c.tasksRemaining e).toNat + c.completed.countP (eventOf · = e) = c.taskCount e

/-- What has to hold before an event may finish. -/
def ReadyToFinish (c : Config W) (e : Nat) : Prop :=
  (∀ i < c.taskCount e, taskDescriptor g e i ∈ c.completed) ∧
    (kindOf e = .finalize → .finalized (pipelineOf e) ∈ c.history)

/-- Every parent of an event has finished. -/
def ParentsFinished (c : Config W) (e : Nat) : Prop :=
  ∀ x ∈ g.edges, x.child = e → c.state x.parent = .finished

/-- What a pending call of the leader relies on. -/
def CallOk (c : Config W) : LeaderCall → Prop
  | .trySchedule e _ => ParentsFinished g c e
  | .markScheduled e => c.state e ≠ .pending
  | .pushTask e i => ∀ j, i ≤ j → j < c.taskCount e → .enqueued (taskDescriptor g e j) ∉ c.history
  | .finishEvent e => c.state e ≠ .pending ∧ ReadyToFinish g c e
  | .abort _ => False
  | .completeDependency _ upstreamAborted => upstreamAborted = false
  | .markFinished _ => True

/-- The pending calls of the leader; only the innermost pushes tasks. -/
structure CallInv (c : Config W) : Prop where
  call_lt : ∀ call ∈ c.stack, call.event < g.eventCount
  call_ok : ∀ call ∈ c.stack, CallOk g c call
  push_at_head : ∀ call ∈ c.stack.tail, ¬ call.IsPush

/-- A scheduled finalize event keeps a counter for the leader loop to find,
until the leader is about to finish it. -/
def FinalizeWaits (c : Config W) : Prop :=
  ∀ e, kindOf e = .finalize → c.state e = .scheduled →
    c.tasksRemaining e ≠ 0 ∨ .finishEvent e ∈ c.stack

/-- The dependency counts and the states of the events. -/
structure EventInv (c : Config W) : Prop where
  scheduled_lt : ∀ e, c.state e ≠ .pending → e < g.eventCount
  pending_eq : ∀ e, c.events.pendingDependencies e =
    g.edges.countP (fun x => x.child = e && c.state x.parent ≠ .finished) +
      c.stack.count (.completeDependency e false)
  dependents_eq : ∀ p, c.state p ≠ .finished →
    c.events.dependents p = (g.edges.filter fun x => x.parent = p).map Edge.child
  scheduled_ready : ∀ e, c.state e ≠ .pending → ParentsFinished g c e
  not_aborted : ∀ e, c.sawAborted e = false ∧ c.state e ≠ .aborted
  marked : ∀ e, c.eventScheduled e = true → c.state e ≠ .pending
  finished_ready : ∀ e, c.state e = .finished → ReadyToFinish g c e
  finished_recorded : ∀ e, c.state e = .finished ↔ .eventFinished e ∈ c.history

/-- What must have been recorded before an event of the history. -/
def Guard (pre : List HistoryEvent) : HistoryEvent → Prop
  | .enqueued d => .eventFinished (eventOf d) ∉ pre
  | .eventFinished e => (∀ d, .enqueued d ∈ pre → eventOf d = e → .returned d .finished ∈ pre) ∧
      (kindOf e = .finalize → .finalized (pipelineOf e) ∈ pre)
  | .started d => .enqueued d ∈ pre ∧
      ∀ x ∈ g.edges, x.child = eventOf d → .eventFinished x.parent ∈ pre
  | _ => True

/-- The record obeys its guards. -/
def Guarded (history : List HistoryEvent) : Prop :=
  ∀ pre x post, history = pre ++ x :: post → Guard g pre x

/-- **The scheduler invariant.** -/
structure Inv (c : Config W) : Prop where
  tasks : TaskInv g c
  counts : CountInv c
  calls : CallInv g c
  waits : FinalizeWaits c
  events : EventInv g c
  guarded : Guarded g c.history

end Invariants

section Bookkeeping
variable {g : PipelineGraph} {W : Nat} {c c' : Config W}

theorem Guarded.append {h : List HistoryEvent} (hg : Guarded g h) {x : HistoryEvent}
    (hx : Guard g h x) : Guarded g (h ++ [x]) :=
  TransitionSystem.RecordedUnder.append hg hx

/-- The enqueued tasks of an event that were counted are tasks of that event. -/
theorem TaskInv.completed_subset (h : TaskInv g c) (e : Nat) :
    c.completed.filter (eventOf · = e) ⊆ (List.range (c.taskCount e)).map (taskDescriptor g e) := by
  intro d hd
  obtain ⟨hmem, he⟩ := List.mem_filter.mp hd
  obtain rfl : eventOf d = e := by simpa using he
  obtain ⟨i, hi, heq⟩ := h.task_of d (h.completed_enqueued d hmem)
  exact List.mem_map.mpr ⟨i, List.mem_range.mpr hi, heq.symm⟩

/-- **A zero counter means done.** When all tasks of an event were counted, each
of them was. -/
theorem TaskInv.all_completed (h : TaskInv g c) {e : Nat}
    (hcount : c.completed.countP (eventOf · = e) = c.taskCount e) :
    ∀ i < c.taskCount e, taskDescriptor g e i ∈ c.completed := by
  have hsub := (h.completed_nodup.filter (eventOf · = e)).subperm (h.completed_subset e)
  have hperm := hsub.perm_of_length_le (by
    rw [List.length_map, List.length_range, ← List.countP_eq_length_filter, hcount])
  intro i hi
  have hmem := hperm.mem_iff.mpr (List.mem_map.mpr ⟨i, List.mem_range.mpr hi, rfl⟩)
  exact (List.mem_filter.mp hmem).1

/-- A task that is held and not counted leaves room in the count. -/
theorem TaskInv.countP_lt (h : TaskInv g c) {d : TaskDescriptor}
    (henq : .enqueued d ∈ c.history) (hd : d ∉ c.completed) :
    c.completed.countP (eventOf · = eventOf d) < c.taskCount (eventOf d) := by
  have hnodup : (d :: c.completed.filter (eventOf · = eventOf d)).Nodup :=
    List.nodup_cons.mpr ⟨fun hm => hd (List.mem_filter.mp hm).1,
      h.completed_nodup.filter _⟩
  obtain ⟨i, hi, heq⟩ := h.task_of d henq
  have hsub : d :: c.completed.filter (eventOf · = eventOf d) ⊆
      (List.range (c.taskCount (eventOf d))).map (taskDescriptor g (eventOf d)) :=
    List.cons_subset.mpr ⟨List.mem_map.mpr ⟨i, List.mem_range.mpr hi, heq.symm⟩,
      h.completed_subset (eventOf d)⟩
  have hlen := (hnodup.subperm hsub).length_le
  rw [List.length_cons, List.length_map, List.length_range, ← List.countP_eq_length_filter] at hlen
  omega

theorem ReadyToFinish.mono {e : Nat} (h : ReadyToFinish g c e) (hcount : c'.taskCount = c.taskCount)
    (hcompleted : ∀ d ∈ c.completed, d ∈ c'.completed)
    (hhistory : ∀ x ∈ c.history, x ∈ c'.history) : ReadyToFinish g c' e :=
  ⟨fun i hi => hcompleted _ (h.1 i (by rwa [hcount] at hi)), fun hk => hhistory _ (h.2 hk)⟩

/-- The event facts only grow with the completed tasks and the record, as long
as the leader's private memory stays. -/
theorem EventInv.mono (h : EventInv g c) (hstate : c'.state = c.state)
    (hevents : c'.events = c.events)
    (hstack : ∀ e, c'.stack.count (.completeDependency e false) =
      c.stack.count (.completeDependency e false))
    (hsaw : c'.sawAborted = c.sawAborted)
    (hmark : ∀ e, c'.eventScheduled e = true → c.eventScheduled e = true ∨ c.state e ≠ .pending)
    (hcount : c'.taskCount = c.taskCount) (hcompleted : ∀ d ∈ c.completed, d ∈ c'.completed)
    (hhistory : ∀ x ∈ c.history, x ∈ c'.history)
    (hfinished : ∀ e, .eventFinished e ∈ c'.history → .eventFinished e ∈ c.history) :
    EventInv g c' where
  scheduled_lt := by rw [hstate]; exact h.scheduled_lt
  pending_eq e := by rw [hevents, hstate, hstack]; exact h.pending_eq e
  dependents_eq := by rw [hevents, hstate]; exact h.dependents_eq
  scheduled_ready e he x hx hc := by
    rw [hstate] at he ⊢
    exact h.scheduled_ready e he x hx hc
  not_aborted := by rw [hsaw, hstate]; exact h.not_aborted
  marked e he := by
    rw [hstate]
    rcases hmark e he with he | he
    · exact h.marked e he
    · exact he
  finished_ready e he := by
    rw [hstate] at he
    exact (h.finished_ready e he).mono hcount hcompleted hhistory
  finished_recorded e := by
    rw [hstate]
    exact (h.finished_recorded e).trans ⟨hhistory _, hfinished e⟩

/-- What a pending call relies on survives the steps of others. -/
theorem CallOk.mono {call : LeaderCall} (h : CallOk g c call) (hstate : c'.state = c.state)
    (hcount : c'.taskCount = c.taskCount) (hcompleted : ∀ d ∈ c.completed, d ∈ c'.completed)
    (hhistory : ∀ x ∈ c.history, x ∈ c'.history)
    (henq : call.IsPush → ∀ d, .enqueued d ∈ c'.history → .enqueued d ∈ c.history) :
    CallOk g c' call := by
  cases call with
  | trySchedule e m =>
    intro x hx hc
    rw [hstate]; exact h x hx hc
  | markScheduled e => simp only [CallOk, hstate] at h ⊢; exact h
  | pushTask e i =>
    intro j hij hj hd
    rw [hcount] at hj
    exact h j hij hj (henq trivial _ hd)
  | finishEvent e =>
    obtain ⟨hs, hr⟩ := h
    exact ⟨by rw [hstate]; exact hs, hr.mono hcount hcompleted hhistory⟩
  | abort e => exact h
  | completeDependency e a => exact h
  | markFinished e => trivial

/-- The pending calls of others stay in order when nothing new was enqueued. -/
theorem CallInv.mono (h : CallInv g c) (hstack : c'.stack = c.stack)
    (hstate : c'.state = c.state)
    (hcount : c'.taskCount = c.taskCount) (hcompleted : ∀ d ∈ c.completed, d ∈ c'.completed)
    (hhistory : ∀ x ∈ c.history, x ∈ c'.history)
    (henq : ∀ d, .enqueued d ∈ c'.history → .enqueued d ∈ c.history) : CallInv g c' where
  call_lt := by rw [hstack]; exact h.call_lt
  call_ok call hm := by
    rw [hstack] at hm
    exact (h.call_ok call hm).mono hstate hcount hcompleted hhistory fun _ => henq
  push_at_head := by rw [hstack]; exact h.push_at_head

end Bookkeeping

section WorkerSteps
variable {g : PipelineGraph} {W : Nat} {c : Config W} {w : Fin W} {d : TaskDescriptor}

/-- Worker `w` keeps its task or drops it; the record grows by something other
than an enqueued task. -/
theorem TaskInv.keep (h : TaskInv g c) {pc : WorkerPc} {history : List HistoryEvent}
    {err shut : Bool}
    (hsub : ∀ x ∈ c.history, x ∈ history)
    (henq : ∀ d, .enqueued d ∈ history → .enqueued d ∈ c.history)
    (htask : ∀ d, pc.task = some d → (c.worker w).task = some d)
    (hdec : ∀ d, pc = .decrementing d → .returned d .finished ∈ history) :
    TaskInv g { c.moveWorker w pc with
      history := history, workerError := err, shutdownRequested := shut } := by
  have hheld : ∀ v d, (Function.update c.worker w pc v).task = some d →
      (c.worker v).task = some d := by
    intro v d hv
    rcases eq_or_ne v w with rfl | hne
    · rw [Function.update_self] at hv; exact htask d hv
    · rwa [Function.update_of_ne hne] at hv
  exact
    { task_of := fun d hd => h.task_of d (henq d hd)
      queue_enqueued := fun d hd => hsub _ (h.queue_enqueued d hd)
      held_enqueued := fun v d hv => hsub _ (h.held_enqueued v d (hheld v d hv))
      completed_enqueued := fun d hd => hsub _ (h.completed_enqueued d hd)
      queue_nodup := h.queue_nodup
      completed_nodup := h.completed_nodup
      queue_held := fun d hd v hv => h.queue_held d hd v (hheld v d hv)
      queue_completed := h.queue_completed
      held_completed := fun v d hv => h.held_completed v d (hheld v d hv)
      held_unique := fun v u d hv hu => h.held_unique v u d (hheld v d hv) (hheld u d hu)
      decrementing_returned := fun v d hv => by
        change Function.update c.worker w pc v = _ at hv
        rcases eq_or_ne v w with rfl | hne
        · rw [Function.update_self] at hv; exact hdec d hv
        · rw [Function.update_of_ne hne] at hv
          exact hsub _ (h.decrementing_returned v d hv)
      completed_returned := fun d hd => hsub _ (h.completed_returned d hd) }

/-- Worker `w` takes the head of the queue. -/
theorem TaskInv.pop (h : TaskInv g c) {rest : List TaskDescriptor} (hq : c.queue = d :: rest)
    (hidle : (c.worker w).task = none) :
    TaskInv g { c.moveWorker w (.popped d) with queue := rest } := by
  have hnodup := h.queue_nodup
  rw [hq, List.nodup_cons] at hnodup
  have hd : d ∈ c.queue := by rw [hq]; exact List.mem_cons_self
  have hrest : ∀ x ∈ rest, x ∈ c.queue := fun x hx => by rw [hq]; exact List.mem_cons_of_mem _ hx
  have hheld : ∀ v x, (Function.update c.worker w (.popped d) v).task = some x →
      (v = w ∧ x = d) ∨ (v ≠ w ∧ (c.worker v).task = some x) := by
    intro v x hv
    rcases eq_or_ne v w with rfl | hne
    · rw [Function.update_self] at hv
      exact Or.inl ⟨rfl, (Option.some.inj hv).symm⟩
    · rw [Function.update_of_ne hne] at hv
      exact Or.inr ⟨hne, hv⟩
  exact
    { task_of := h.task_of
      queue_enqueued := fun x hx => h.queue_enqueued x (hrest x hx)
      held_enqueued := fun v x hv => by
        rcases hheld v x hv with ⟨_, rfl⟩ | ⟨_, hv⟩
        · exact h.queue_enqueued x hd
        · exact h.held_enqueued v x hv
      completed_enqueued := h.completed_enqueued
      queue_nodup := hnodup.2
      completed_nodup := h.completed_nodup
      queue_held := fun x hx v hv => by
        rcases hheld v x hv with ⟨_, rfl⟩ | ⟨_, hv⟩
        · exact hnodup.1 hx
        · exact h.queue_held x (hrest x hx) v hv
      queue_completed := fun x hx => h.queue_completed x (hrest x hx)
      held_completed := fun v x hv => by
        rcases hheld v x hv with ⟨_, rfl⟩ | ⟨_, hv⟩
        · exact h.queue_completed x hd
        · exact h.held_completed v x hv
      held_unique := fun v u x hv hu => by
        rcases hheld v x hv with ⟨rfl, rfl⟩ | ⟨_, hv'⟩
        · rcases hheld u x hu with ⟨rfl, _⟩ | ⟨_, hu'⟩
          · rfl
          · exact absurd hu' (h.queue_held x hd u)
        · rcases hheld u x hu with ⟨rfl, rfl⟩ | ⟨_, hu'⟩
          · exact absurd hv' (h.queue_held x hd v)
          · exact h.held_unique v u x hv' hu'
      decrementing_returned := fun v x hv => by
        change Function.update c.worker w _ v = _ at hv
        rcases eq_or_ne v w with rfl | hne
        · rw [Function.update_self] at hv; cases hv
        · rw [Function.update_of_ne hne] at hv
          exact h.decrementing_returned v x hv
      completed_returned := h.completed_returned }

/-- Worker `w` lets go of its task `d`; afterwards it holds none. -/
theorem TaskInv.held_of_release (h : TaskInv g c) (hw : (c.worker w).task = some d) :
    ∀ v x, (Function.update c.worker w .idle v).task = some x →
      (c.worker v).task = some x ∧ x ≠ d := by
  intro v x hv
  rcases eq_or_ne v w with rfl | hne
  · rw [Function.update_self] at hv; cases hv
  · rw [Function.update_of_ne hne] at hv
    refine ⟨hv, ?_⟩
    rintro rfl
    exact hne (h.held_unique v w x hv hw)

/-- Worker `w` pushes its unfinished task again. -/
theorem TaskInv.repush (h : TaskInv g c) (hw : (c.worker w).task = some d) :
    TaskInv g { c.moveWorker w .idle with queue := c.queue ++ [d] } := by
  have hheld := h.held_of_release hw
  have hnew : d ∉ c.queue := fun hd => h.queue_held d hd w hw
  have hqueue : ∀ x ∈ c.queue ++ [d], x ∈ c.queue ∨ x = d := fun x hx => by simpa using hx
  exact
    { task_of := h.task_of
      queue_enqueued := fun x hx => by
        rcases hqueue x hx with hx | rfl
        · exact h.queue_enqueued x hx
        · exact h.held_enqueued w x hw
      held_enqueued := fun v x hv => h.held_enqueued v x (hheld v x hv).1
      completed_enqueued := h.completed_enqueued
      queue_nodup := by
        rw [← List.concat_eq_append]; exact h.queue_nodup.concat hnew
      completed_nodup := h.completed_nodup
      queue_held := fun x hx v hv => by
        rcases hqueue x hx with hx | rfl
        · exact h.queue_held x hx v (hheld v x hv).1
        · exact (hheld v x hv).2 rfl
      queue_completed := fun x hx => by
        rcases hqueue x hx with hx | rfl
        · exact h.queue_completed x hx
        · exact h.held_completed w x hw
      held_completed := fun v x hv => h.held_completed v x (hheld v x hv).1
      held_unique := fun v u x hv hu => h.held_unique v u x (hheld v x hv).1 (hheld u x hu).1
      decrementing_returned := fun v x hv => by
        change Function.update c.worker w _ v = _ at hv
        rcases eq_or_ne v w with rfl | hne
        · rw [Function.update_self] at hv; cases hv
        · rw [Function.update_of_ne hne] at hv
          exact h.decrementing_returned v x hv
      completed_returned := h.completed_returned }

/-- Worker `w` counts its finished task. -/
theorem TaskInv.count (h : TaskInv g c) (hw : c.worker w = .decrementing d)
    (remaining : Nat → UInt32) :
    TaskInv g { c.moveWorker w .idle with
      tasksRemaining := remaining, completed := c.completed ++ [d] } := by
  have htask : (c.worker w).task = some d := by rw [hw]; rfl
  have hheld := h.held_of_release htask
  have hcompleted : ∀ x ∈ c.completed ++ [d], x ∈ c.completed ∨ x = d := fun x hx => by
    simpa using hx
  exact
    { task_of := h.task_of
      queue_enqueued := h.queue_enqueued
      held_enqueued := fun v x hv => h.held_enqueued v x (hheld v x hv).1
      completed_enqueued := fun x hx => by
        rcases hcompleted x hx with hx | rfl
        · exact h.completed_enqueued x hx
        · exact h.held_enqueued w x htask
      queue_nodup := h.queue_nodup
      completed_nodup := by
        rw [← List.concat_eq_append]
        exact h.completed_nodup.concat (h.held_completed w d htask)
      queue_held := fun x hx v hv => h.queue_held x hx v (hheld v x hv).1
      queue_completed := fun x hx hx' => by
        rcases hcompleted x hx' with hx' | rfl
        · exact h.queue_completed x hx hx'
        · exact h.queue_held x hx w htask
      held_completed := fun v x hv hx => by
        rcases hcompleted x hx with hx | rfl
        · exact h.held_completed v x (hheld v x hv).1 hx
        · exact (hheld v x hv).2 rfl
      held_unique := fun v u x hv hu => h.held_unique v u x (hheld v x hv).1 (hheld u x hu).1
      decrementing_returned := fun v x hv => by
        change Function.update c.worker w _ v = _ at hv
        rcases eq_or_ne v w with rfl | hne
        · rw [Function.update_self] at hv; cases hv
        · rw [Function.update_of_ne hne] at hv
          exact h.decrementing_returned v x hv
      completed_returned := fun x hx => by
        rcases hcompleted x hx with hx | rfl
        · exact h.completed_returned x hx
        · exact h.decrementing_returned w x hw }

theorem CountInv.mono {c' : Config W} (h : CountInv c) (hstate : c'.state = c.state)
    (hcount : c'.taskCount = c.taskCount) (hstatus : c'.status = c.status)
    (hremaining : c'.tasksRemaining = c.tasksRemaining) (hcompleted : c'.completed = c.completed) :
    CountInv c' where
  pending_count := by rw [hstate, hcount]; exact h.pending_count
  count_lt := by rw [hcount]; exact h.count_lt
  finalize_count := by rw [hcount]; exact h.finalize_count
  counter := by rw [hstatus, hremaining, hcompleted, hcount]; exact h.counter

/-- The event of an enqueued task was scheduled. -/
theorem Inv.scheduled_of_enqueued (h : Inv g c) (hd : .enqueued d ∈ c.history) :
    c.state (eventOf d) ≠ .pending := by
  intro hp
  obtain ⟨i, hi, _⟩ := h.tasks.task_of d hd
  rw [h.counts.pending_count _ hp] at hi
  exact Nat.not_lt_zero i hi

/-- A worker step that leaves the record and the leader's memory alone. -/
theorem Inv.queue_step {c' : Config W} (h : Inv g c) (htasks : TaskInv g c') (hcounts : CountInv c')
    (hstate : c'.state = c.state) (hevents : c'.events = c.events) (hstack : c'.stack = c.stack)
    (hsaw : c'.sawAborted = c.sawAborted) (hmark : c'.eventScheduled = c.eventScheduled)
    (hcount : c'.taskCount = c.taskCount) (hhistory : c'.history = c.history)
    (hcompleted : ∀ d ∈ c.completed, d ∈ c'.completed)
    (hremaining : ∀ e, kindOf e = .finalize → c'.tasksRemaining e = c.tasksRemaining e) :
    Inv g c' where
  tasks := htasks
  counts := hcounts
  waits e hk he := by
    rw [hremaining e hk, hstack]
    exact h.waits e hk (by rwa [hstate] at he)
  calls := h.calls.mono hstack hstate hcount hcompleted (by rw [hhistory]; exact fun _ => id)
    (by rw [hhistory]; exact fun _ => id)
  events := h.events.mono hstate hevents (by rw [hstack]; exact fun _ => rfl) hsaw
    (by rw [hmark]; exact fun _ => Or.inl) hcount hcompleted (by rw [hhistory]; exact fun _ => id)
    (by rw [hhistory]; exact fun _ => id)
  guarded := by rw [hhistory]; exact h.guarded

/-- A worker step that neither touches the queue nor counts a task. -/
theorem Inv.keep (h : Inv g c) {pc : WorkerPc} {x : Option HistoryEvent} {err shut : Bool}
    (henq : ∀ d, x ≠ some (.enqueued d)) (hfin : ∀ e, x ≠ some (.eventFinished e))
    (hguard : ∀ y, x = some y → Guard g c.history y)
    (htask : ∀ d, pc.task = some d → (c.worker w).task = some d)
    (hdec : ∀ d, pc = .decrementing d → x = some (.returned d .finished)) :
    Inv g { c.moveWorker w pc with
      history := c.history ++ x.toList, workerError := err, shutdownRequested := shut } := by
  have hsub : ∀ y ∈ c.history, y ∈ c.history ++ x.toList := fun y hy => List.mem_append_left _ hy
  have hold : ∀ y, x ≠ some y → y ∈ c.history ++ x.toList → y ∈ c.history := by
    intro y hy hm
    rcases List.mem_append.mp hm with hm | hm
    · exact hm
    · exact absurd (Option.mem_toList.mp hm) hy
  exact
    { tasks := h.tasks.keep hsub (fun d => hold _ (henq d)) htask fun d hd => by
        rw [hdec d hd]; simp
      counts := h.counts.mono rfl rfl rfl rfl rfl
      calls := h.calls.mono rfl rfl rfl (fun _ => id) hsub fun d => hold _ (henq d)
      waits := h.waits
      events := h.events.mono rfl rfl (fun _ => rfl) rfl (fun _ => Or.inl) rfl (fun _ => id) hsub
        fun e => hold _ (hfin e)
      guarded := by
        cases x with
        | none => simpa using h.guarded
        | some y => exact h.guarded.append (hguard y rfl) }

/-- A worker that exits drops the task it holds. -/
theorem Inv.exit (h : Inv g c) (w : Fin W) (err shut : Bool) :
    Inv g { c.moveWorker w .exited with workerError := err, shutdownRequested := shut } := by
  have hkeep : Inv g { c.moveWorker w .exited with
      history := c.history ++ (none : Option HistoryEvent).toList
      workerError := err
      shutdownRequested := shut } :=
    h.keep (by simp) (by simp) (by simp) (fun _ hd => by cases hd) (fun _ hd => by cases hd)
  rw [Option.toList_none, List.append_nil] at hkeep
  exact hkeep

/-- **Worker step lemma.** -/
theorem Inv.workerStep (h : Inv g c) (w : Fin W) (result : TaskExecutionResult) (ok : Bool) :
    Inv g (c.workerStep g w result ok) := by
  cases hpc : c.worker w with
  | idle =>
    simp only [Config.workerStep, hpc]
    split
    · exact h.exit w _ _
    · split
      · next d rest hq =>
        split
        · have hidle : (c.worker w).task = none := by rw [hpc]; rfl
          exact h.queue_step (h.tasks.pop hq hidle) (h.counts.mono rfl rfl rfl rfl rfl)
            rfl rfl rfl rfl rfl rfl rfl (fun _ => id) (fun _ _ => rfl)
        · exact h
      · exact h
  | popped d =>
    have htask : (c.worker w).task = some d := by rw [hpc]; rfl
    have henq := h.tasks.held_enqueued w d htask
    simp only [Config.workerStep, hpc]
    split
    · exact h.exit w _ _
    · split
      · exact h.exit w _ _
      · split
        · exact h.exit w _ _
        · refine h.keep (x := some (.started d)) (by simp) (by simp) ?_ ?_ (fun _ hd => by cases hd)
          · rintro y hy
            obtain rfl := Option.some.inj hy
            refine ⟨henq, fun x hx hc => ?_⟩
            -- a task was enqueued, so its event was scheduled, so the parents have finished
            have hparents := h.events.scheduled_ready _ (h.scheduled_of_enqueued henq)
            exact (h.events.finished_recorded _).mp (hparents x hx hc)
          · intro d' hd'
            rw [htask]; exact hd'
  | executing d =>
    have htask : (c.worker w).task = some d := by rw [hpc]; rfl
    have hreturn : ∀ {pc : WorkerPc} {err shut : Bool},
        (∀ d', pc.task = some d' → d' = d) → (∀ d', pc = .decrementing d' → result = .finished) →
        Inv g { c.moveWorker w pc with
          history := c.history ++ (some (HistoryEvent.returned d result)).toList,
          workerError := err, shutdownRequested := shut } := by
      intro pc err shut hkeep hdec
      refine h.keep (by simp) (by simp) ?_ ?_ ?_
      · rintro y hy
        obtain rfl := Option.some.inj hy
        trivial
      · intro d' hd'
        rw [htask, hkeep d' hd']
      · intro d' hd'
        rw [hdec d' hd', hkeep d' (by rw [hd']; rfl)]
    simp only [Config.workerStep, hpc]
    cases result with
    | finished => exact hreturn (fun _ hd => (Option.some.inj hd).symm) (fun _ _ => rfl)
    | notFinished =>
      exact hreturn (fun _ hd => (Option.some.inj hd).symm) (fun _ hd => by cases hd)
    | error => exact hreturn (fun _ hd => by cases hd) (fun _ hd => by cases hd)
  | repushing d =>
    have htask : (c.worker w).task = some d := by rw [hpc]; rfl
    simp only [Config.workerStep, hpc]
    split
    · exact h.queue_step (h.tasks.repush htask) (h.counts.mono rfl rfl rfl rfl rfl)
        rfl rfl rfl rfl rfl rfl rfl (fun _ => id) (fun _ _ => rfl)
    · exact h.exit w _ _
  | decrementing d =>
    have htask : (c.worker w).task = some d := by rw [hpc]; rfl
    have henq := h.tasks.held_enqueued w d htask
    simp only [Config.workerStep, hpc]
    refine h.queue_step (h.tasks.count hpc _) ?_ rfl rfl rfl rfl rfl rfl rfl
      (fun x hx => List.mem_append_left _ hx) ?_
    · refine
        { pending_count := h.counts.pending_count
          count_lt := h.counts.count_lt
          finalize_count := h.counts.finalize_count
          counter := fun hs e hk => ?_ }
      have hcounter := h.counts.counter hs e hk
      change (Function.update c.tasksRemaining (eventOf d)
        (c.tasksRemaining (eventOf d) - 1) e).toNat + (c.completed ++ [d]).countP _ = c.taskCount e
      rw [List.countP_append, List.countP_singleton]
      rcases eq_or_ne e (eventOf d) with rfl | hne
      · -- the counter is positive: this task is not counted yet
        have hroom := h.tasks.countP_lt henq (h.tasks.held_completed w d htask)
        have hpos : 1 ≤ c.tasksRemaining (eventOf d) := by
          rw [UInt32.le_iff_toNat_le]
          change 1 ≤ _
          omega
        have hpos' : 1 ≤ (c.tasksRemaining (eventOf d)).toNat := UInt32.le_iff_toNat_le.mp hpos
        rw [Function.update_self, UInt32.toNat_sub_of_le _ _ hpos, UInt32.toNat_one,
          if_pos (by simp)]
        omega
      · simpa [Function.update_of_ne hne, hne.symm] using hcounter
    · -- finalize events have no queue tasks
      intro e hk
      refine Function.update_of_ne ?_ _ _
      rintro rfl
      obtain ⟨i, hi, _⟩ := h.tasks.task_of d henq
      rw [h.counts.finalize_count _ hk] at hi
      exact Nat.not_lt_zero i hi
  | exited => simpa only [Config.workerStep, hpc] using h

end WorkerSteps

section LeaderSteps
variable {g : PipelineGraph} {W : Nat} {c c' : Config W} {e : Nat} {call : LeaderCall}
  {rest : List LeaderCall}

theorem TaskInv.congr (h : TaskInv g c) (hqueue : c'.queue = c.queue)
    (hworker : c'.worker = c.worker) (hcompleted : c'.completed = c.completed)
    (henq : ∀ d, .enqueued d ∈ c'.history ↔ .enqueued d ∈ c.history)
    (hreturned : ∀ d, .returned d .finished ∈ c.history → .returned d .finished ∈ c'.history)
    (hcount : ∀ d, .enqueued d ∈ c.history → c'.taskCount (eventOf d) = c.taskCount (eventOf d)) :
    TaskInv g c' where
  task_of d hd := by
    have hd' := (henq d).mp hd
    rw [hcount d hd']
    exact h.task_of d hd'
  queue_enqueued d hd := (henq d).mpr (h.queue_enqueued d (by rwa [hqueue] at hd))
  held_enqueued w d hw := (henq d).mpr (h.held_enqueued w d (by rwa [hworker] at hw))
  completed_enqueued d hd := (henq d).mpr (h.completed_enqueued d (by rwa [hcompleted] at hd))
  queue_nodup := by rw [hqueue]; exact h.queue_nodup
  completed_nodup := by rw [hcompleted]; exact h.completed_nodup
  queue_held := by rw [hqueue, hworker]; exact h.queue_held
  queue_completed := by rw [hqueue, hcompleted]; exact h.queue_completed
  held_completed := by rw [hworker, hcompleted]; exact h.held_completed
  held_unique := by rw [hworker]; exact h.held_unique
  decrementing_returned w d hw := hreturned d (h.decrementing_returned w d (by rwa [hworker] at hw))
  completed_returned d hd := hreturned d (h.completed_returned d (by rwa [hcompleted] at hd))

/-- A leader step that only rearranges its pending calls and loop variables. -/
theorem Inv.leader_local (h : Inv g c) (hqueue : c'.queue = c.queue)
    (hworker : c'.worker = c.worker) (hcompleted : c'.completed = c.completed)
    (hhistory : c'.history = c.history) (hcount : c'.taskCount = c.taskCount)
    (hstate : c'.state = c.state) (hevents : c'.events = c.events)
    (hsaw : c'.sawAborted = c.sawAborted)
    (hcounts : CountInv c')
    (hmark : ∀ e, c'.eventScheduled e = true → c.eventScheduled e = true ∨ c.state e ≠ .pending)
    (hstack : ∀ e, c'.stack.count (.completeDependency e false) =
      c.stack.count (.completeDependency e false))
    (hcalls : CallInv g c') (hwaits : FinalizeWaits c') : Inv g c' where
  tasks := h.tasks.congr hqueue hworker hcompleted (by rw [hhistory]; exact fun _ => Iff.rfl)
    (by rw [hhistory]; exact fun _ => id) (by rw [hcount]; exact fun _ _ => rfl)
  counts := hcounts
  calls := hcalls
  waits := hwaits
  events := h.events.mono hstate hevents hstack hsaw hmark hcount
    (by rw [hcompleted]; exact fun _ => id) (by rw [hhistory]; exact fun _ => id)
    (by rw [hhistory]; exact fun _ => id)
  guarded := by rw [hhistory]; exact h.guarded

/-- Dropping the innermost call leaves the others in order. -/
theorem CallInv.pop (h : CallInv g c) (hs : c.stack = call :: rest) (hstack : c'.stack = rest)
    (hstate : c'.state = c.state) (hcount : c'.taskCount = c.taskCount)
    (hcompleted : c'.completed = c.completed) (hhistory : c'.history = c.history) :
    CallInv g c' where
  call_lt x hx := h.call_lt x (by rw [hs]; rw [hstack] at hx; exact List.mem_cons_of_mem _ hx)
  call_ok x hx := by
    rw [hstack] at hx
    refine (h.call_ok x (by rw [hs]; exact List.mem_cons_of_mem _ hx)).mono hstate hcount ?_ ?_ ?_
    · rw [hcompleted]; exact fun _ => id
    · rw [hhistory]; exact fun _ => id
    · rw [hhistory]; exact fun _ _ => id
  push_at_head x hx := by
    rw [hstack] at hx
    exact h.push_at_head x (by rw [hs]; exact List.mem_of_mem_tail hx)

/-- A leader step that drops its innermost call and touches loop variables only. -/
theorem Inv.drop_call (h : Inv g c) (hs : c.stack = call :: rest)
    (hcall : ∀ e, call ≠ .completeDependency e false ∧ call ≠ .finishEvent e) (scheduled finished : Nat → Bool)
    (progress : Bool) (hmark : ∀ e, scheduled e = true → c.eventScheduled e = true ∨
      c.state e ≠ .pending) :
    Inv g { c with
      stack := rest, eventScheduled := scheduled, eventFinished := finished,
      progress := progress } := by
  refine h.leader_local rfl rfl rfl rfl rfl rfl rfl rfl (h.counts.mono rfl rfl rfl rfl rfl) hmark
    (fun e => ?_) (h.calls.pop hs rfl rfl rfl rfl rfl) (fun e hk he => ?_)
  · rw [hs, List.count_cons_of_ne (hcall e).1]
  · refine (h.waits e hk he).imp_right fun hm => ?_
    rw [hs] at hm
    exact (List.mem_cons.mp hm).resolve_left (hcall e).2.symm

/-- Scheduling a pending event whose parents have finished: its counter is set
before any of its tasks is pushed. -/
theorem Inv.schedule (h : Inv g c) {n : Nat} {r : UInt32} {x : Option HistoryEvent}
    (hs : c.stack = call :: rest)
    (hcall : ∀ e, call ≠ .completeDependency e false ∧ call ≠ .finishEvent e)
    (hlt : e < g.eventCount) (hpending : c.state e = .pending) (hparents : ParentsFinished g c e)
    (hqueue : c'.queue = c.queue) (hworker : c'.worker = c.worker)
    (hcompleted : c'.completed = c.completed) (hstatus : c'.status = c.status)
    (hstate : c'.state = Function.update c.state e .scheduled) (hevents : c'.events = c.events)
    (hsaw : c'.sawAborted = c.sawAborted) (hmark : c'.eventScheduled = c.eventScheduled)
    (hremaining : c'.tasksRemaining = Function.update c.tasksRemaining e r)
    (hcount : c'.taskCount = Function.update c.taskCount e n)
    (hhistory : c'.history = c.history ++ x.toList)
    (hx : ∀ y, x = some y → y = .finalized (pipelineOf e))
    (hn : n < 2 ^ 32) (hr : kindOf e ≠ .finalize → r.toNat = n) (hfin : kindOf e = .finalize → n = 0)
    (hstack : ∀ y ∈ c'.stack, y ∈ rest ∨ y = .markScheduled e ∨ y = .pushTask e 0 ∨
      (y = .finishEvent e ∧ n = 0 ∧ (kindOf e = .finalize → x = some (.finalized (pipelineOf e)))))
    (htail : ∀ y ∈ c'.stack.tail, y ∈ rest ∨ y = .markScheduled e)
    (hstackCount : ∀ e, c'.stack.count (.completeDependency e false) =
      rest.count (.completeDependency e false)) (hrest : ∀ y ∈ rest, y ∈ c'.stack)
    (hwait : kindOf e = .finalize → r ≠ 0 ∨ .finishEvent e ∈ c'.stack) : Inv g c' := by
  have he32 : e < 2 ^ 32 := hlt.trans_le g.ids_fit
  have hnone : ∀ d, .enqueued d ∈ c.history → eventOf d ≠ e := by
    rintro d hd rfl
    exact h.scheduled_of_enqueued hd hpending
  have hsub : ∀ y ∈ c.history, y ∈ c'.history := fun y hy => by
    rw [hhistory]; exact List.mem_append_left _ hy
  have hold : ∀ y, (∀ pid, y ≠ .finalized pid) → y ∈ c'.history → y ∈ c.history := by
    intro y hy hm
    rw [hhistory] at hm
    rcases List.mem_append.mp hm with hm | hm
    · exact hm
    · exact absurd (hx y (Option.mem_toList.mp hm)) (hy _)
  have henq : ∀ d, .enqueued d ∈ c'.history → .enqueued d ∈ c.history := fun d =>
    hold _ (by simp)
  have hstateOf : ∀ e', e' ≠ e → c'.state e' = c.state e' := fun e' hne => by
    rw [hstate, Function.update_of_ne hne]
  have hfinished : ∀ e', c'.state e' = .finished ↔ c.state e' = .finished := by
    intro e'
    rcases eq_or_ne e' e with rfl | hne
    · rw [hstate, Function.update_self, hpending]; simp
    · rw [hstateOf e' hne]
  have hparents' : ∀ e', ParentsFinished g c e' → ParentsFinished g c' e' := fun e' hp y hy hc =>
    (hfinished _).mpr (hp y hy hc)
  have hready : ∀ e', e' ≠ e → ReadyToFinish g c e' → ReadyToFinish g c' e' := by
    intro e' hne hr'
    refine ⟨fun i hi => ?_, fun hk => hsub _ (hr'.2 hk)⟩
    rw [hcount, Function.update_of_ne hne] at hi
    rw [hcompleted]
    exact hr'.1 i hi
  have hmem : ∀ y ∈ rest, y ∈ c.stack := fun y hy => by rw [hs]; exact List.mem_cons_of_mem _ hy
  have hrestpush : ∀ y ∈ rest, ¬ y.IsPush := fun y hy =>
    h.calls.push_at_head y (by rw [hs]; exact hy)
  refine { tasks := ?_, counts := ?_, calls := ?_, waits := ?_, events := ?_, guarded := ?_ }
  · refine h.tasks.congr hqueue hworker hcompleted (fun d => ⟨henq d, hsub _⟩) (fun d => hsub _) ?_
    intro d hd
    rw [hcount, Function.update_of_ne (hnone d hd)]
  · refine
      { pending_count := fun e' he' => ?_
        count_lt := fun e' => ?_
        finalize_count := fun e' hk => ?_
        counter := fun hne e' hk => ?_ }
    all_goals rcases eq_or_ne e' e with rfl | hee
    · rw [hstate, Function.update_self] at he'
      cases he'
    · rw [hcount, Function.update_of_ne hee]
      exact h.counts.pending_count e' (by rwa [hstateOf e' hee] at he')
    · rw [hcount, Function.update_self]; exact hn
    · rw [hcount, Function.update_of_ne hee]; exact h.counts.count_lt e'
    · rw [hcount, Function.update_self]; exact hfin hk
    · rw [hcount, Function.update_of_ne hee]; exact h.counts.finalize_count e' hk
    · have hzero : c.completed.countP (eventOf · = e') = 0 := by
        refine List.countP_eq_zero.mpr fun d hd => ?_
        simpa using hnone d (h.tasks.completed_enqueued d hd)
      rw [hremaining, hcount, hcompleted, Function.update_self, Function.update_self, hzero, hr hk]
      rfl
    · rw [hremaining, hcount, hcompleted, Function.update_of_ne hee, Function.update_of_ne hee]
      exact h.counts.counter (by rwa [hstatus] at hne) e' hk
  · refine { call_lt := fun y hy => ?_, call_ok := fun y hy => ?_, push_at_head := fun y hy => ?_ }
    · rcases hstack y hy with hy | rfl | rfl | ⟨rfl, _⟩
      · exact h.calls.call_lt y (hmem y hy)
      all_goals exact hlt
    · rcases hstack y hy with hy | rfl | rfl | ⟨rfl, hn0, hfinal⟩
      · have hok := h.calls.call_ok y (hmem y hy)
        cases y with
        | trySchedule e' m => exact hparents' e' hok
        | markScheduled e' =>
          change c'.state e' ≠ .pending
          rcases eq_or_ne e' e with rfl | hne
          · rw [hstate, Function.update_self]; decide
          · rw [hstateOf e' hne]; exact hok
        | pushTask e' i => exact absurd trivial (hrestpush _ hy)
        | finishEvent e' =>
          have hne : e' ≠ e := by rintro rfl; exact hok.1 hpending
          exact ⟨by rw [hstateOf e' hne]; exact hok.1, hready e' hne hok.2⟩
        | abort e' => exact hok
        | completeDependency e' a => exact hok
        | markFinished e' => trivial
      · change c'.state e ≠ .pending
        rw [hstate, Function.update_self]; decide
      · intro j _ _ hd
        exact hnone _ (henq _ hd) (eventOf_taskDescriptor he32 j)
      · refine ⟨by rw [hstate, Function.update_self]; decide, fun i hi => ?_, fun hk => ?_⟩
        · rw [hcount, Function.update_self, hn0] at hi
          exact absurd hi (Nat.not_lt_zero i)
        · rw [hhistory, hfinal hk]; simp
    · rcases htail y hy with hy | rfl
      · exact hrestpush y hy
      · exact id
  · intro e' hk he'
    rcases eq_or_ne e' e with rfl | hne
    · rw [hremaining, Function.update_self]; exact hwait hk
    · rw [hremaining, Function.update_of_ne hne]
      refine (h.waits e' hk (by rwa [hstateOf e' hne] at he')).imp_right fun hm => hrest _ ?_
      rw [hs] at hm
      exact (List.mem_cons.mp hm).resolve_left (hcall e').2.symm
  · have hsame : ∀ y : Edge, (decide (c'.state y.parent ≠ .finished)) =
        decide (c.state y.parent ≠ .finished) := fun y => by
      simp only [ne_eq, hfinished]
    refine
      { scheduled_lt := fun e' he' => ?_
        pending_eq := fun e' => ?_
        dependents_eq := fun p hp => ?_
        scheduled_ready := fun e' he' => ?_
        not_aborted := fun e' => ⟨?_, ?_⟩
        marked := fun e' he' => ?_
        finished_ready := fun e' he' => ?_
        finished_recorded := fun e' => ?_ }
    · rcases eq_or_ne e' e with rfl | hne
      · exact hlt
      · exact h.events.scheduled_lt e' (by rwa [hstateOf e' hne] at he')
    · rw [hevents, h.events.pending_eq e', hstackCount, hs, List.count_cons_of_ne (hcall e').1]
      simp only [hsame]
    · rw [hevents]
      exact h.events.dependents_eq p fun hp' => hp ((hfinished p).mpr hp')
    · rcases eq_or_ne e' e with rfl | hne
      · exact hparents' e' hparents
      · exact hparents' e' (h.events.scheduled_ready e' (by rwa [hstateOf e' hne] at he'))
    · rw [hsaw]; exact (h.events.not_aborted e').1
    · rcases eq_or_ne e' e with rfl | hne
      · rw [hstate, Function.update_self]; decide
      · rw [hstateOf e' hne]; exact (h.events.not_aborted e').2
    · rcases eq_or_ne e' e with rfl | hne
      · rw [hstate, Function.update_self]; decide
      · rw [hstateOf e' hne]; exact h.events.marked e' (by rwa [hmark] at he')
    · have he'' := (hfinished e').mp he'
      have hne : e' ≠ e := by rintro rfl; rw [hpending] at he''; cases he''
      exact hready e' hne (h.events.finished_ready e' he'')
    · rw [hfinished, h.events.finished_recorded]
      exact ⟨hsub _, hold _ (by simp)⟩
  · rw [hhistory]
    cases x with
    | none => simpa using h.guarded
    | some y =>
      rw [hx y rfl]
      exact h.guarded.append trivial

/-- `TrySchedule`: a pending event is scheduled, any other left alone. -/
theorem Inv.trySchedule (h : Inv g c) {mark : Bool} (hs : c.stack = .trySchedule e mark :: rest)
    (ok : Bool) : Inv g (c.leaderCall g ok rest (.trySchedule e mark)) := by
  have hmem : LeaderCall.trySchedule e mark ∈ c.stack := by rw [hs]; exact List.mem_cons_self
  have hlt : e < g.eventCount := h.calls.call_lt _ hmem
  have hparents : ParentsFinished g c e := h.calls.call_ok _ hmem
  have hcall : ∀ e', LeaderCall.trySchedule e mark ≠ .completeDependency e' false ∧
      LeaderCall.trySchedule e mark ≠ .finishEvent e' := fun _ => ⟨by simp, by simp⟩
  by_cases hp : c.state e = .pending
  · have hzero := h.counts.pending_count e hp
    -- the counts of pending events are zero, so writing zero changes nothing
    have hsame : Function.update c.taskCount e 0 = c.taskCount := by
      rw [← hzero, Function.update_eq_self]
    have hnone : c.history = c.history ++ (none : Option HistoryEvent).toList := by simp
    simp only [Config.leaderCall, if_pos hp, Config.enqueueTasks]
    cases hk : kindOf e with
    | run =>
      simp only
      refine h.schedule (x := none) hs hcall hlt hp hparents rfl rfl rfl rfl rfl rfl rfl rfl rfl rfl
        hnone (by simp) (UInt32.toNat_lt _) (fun _ => rfl) (fun h' => by simp [hk] at h')
        ?_ ?_ ?_ ?_ (fun h' => by simp [hk] at h')
      all_goals cases mark <;> simp_all
    | combine =>
      simp only
      split
      · refine h.schedule (x := none) (n := 0) hs hcall hlt hp hparents rfl rfl rfl rfl rfl rfl rfl
          rfl rfl hsame.symm hnone (by simp) (by decide) (fun _ => rfl) (fun _ => rfl)
          ?_ ?_ ?_ ?_ (fun h' => by simp [hk] at h')
        all_goals cases mark <;> simp_all
      · refine h.schedule (x := none) hs hcall hlt hp hparents rfl rfl rfl rfl rfl rfl rfl rfl rfl
          rfl hnone (by simp) (UInt32.toNat_lt _) (fun _ => rfl) (fun h' => by simp [hk] at h')
          ?_ ?_ ?_ ?_ (fun h' => by simp [hk] at h')
        all_goals cases mark <;> simp_all
    | finalize =>
      simp only
      split
      · refine h.schedule (x := some (.finalized (pipelineOf e))) (n := 0) hs hcall hlt hp hparents
          rfl rfl rfl rfl rfl rfl rfl rfl rfl hsame.symm rfl (by simp) (by decide) (fun _ => rfl)
          (fun _ => rfl) ?_ ?_ ?_ ?_ (fun _ => Or.inr (by simp))
        all_goals cases mark <;> simp_all
      · refine h.schedule (x := none) (n := 0) hs hcall hlt hp hparents rfl rfl rfl rfl rfl rfl rfl
          rfl rfl hsame.symm hnone (by simp) (by decide) (fun h' => absurd hk h') (fun _ => rfl)
          ?_ ?_ ?_ ?_ (fun _ => Or.inl (by decide))
        all_goals cases mark <;> simp_all
        all_goals exact fun y hy => Or.inl (List.mem_of_mem_tail hy)
  · simp only [Config.leaderCall, if_neg hp]
    exact h.drop_call hs hcall _ _ _ (fun _ => Or.inl)

/-- The leader pushes the next task of an event it has scheduled. -/
theorem Inv.pushTask (h : Inv g c) {i : Nat} (hs : c.stack = .pushTask e i :: rest) (ok : Bool) :
    Inv g (c.leaderCall g ok rest (.pushTask e i)) := by
  have hmem : LeaderCall.pushTask e i ∈ c.stack := by rw [hs]; exact List.mem_cons_self
  have hlt : e < g.eventCount := h.calls.call_lt _ hmem
  have he32 : e < 2 ^ 32 := hlt.trans_le g.ids_fit
  have hfresh : CallOk g c (.pushTask e i) := h.calls.call_ok _ hmem
  have hrestpush : ∀ y ∈ rest, ¬ y.IsPush := fun y hy =>
    h.calls.push_at_head y (by rw [hs]; exact hy)
  simp only [Config.leaderCall]
  split
  · next hi =>
    set t := taskDescriptor g e i with ht
    have hnew : .enqueued t ∉ c.history := hfresh i le_rfl hi
    have hevent : eventOf t = e := eventOf_taskDescriptor he32 i
    split
    · have hsub : ∀ y ∈ c.history, y ∈ c.history ++ [.enqueued t] := fun y hy =>
        List.mem_append_left _ hy
      have hadded : ∀ d, .enqueued d ∈ c.history ++ [.enqueued t] → .enqueued d ∈ c.history ∨ d = t :=
        fun d hd => by simpa using hd
      have hold : ∀ y, (∀ d, y ≠ .enqueued d) → y ∈ c.history ++ [.enqueued t] → y ∈ c.history := by
        intro y hy hm
        rcases List.mem_append.mp hm with hm | hm
        · exact hm
        · exact absurd (List.mem_singleton.mp hm) (hy t)
      exact
        { tasks :=
            { task_of := fun d hd => by
                rcases hadded d hd with hd | rfl
                · exact h.tasks.task_of d hd
                · rw [hevent]; exact ⟨i, hi, rfl⟩
              queue_enqueued := fun d hd => by
                rcases List.mem_append.mp hd with hd | hd
                · exact hsub _ (h.tasks.queue_enqueued d hd)
                · rw [List.mem_singleton.mp hd]; simp
              held_enqueued := fun w d hw => hsub _ (h.tasks.held_enqueued w d hw)
              completed_enqueued := fun d hd => hsub _ (h.tasks.completed_enqueued d hd)
              queue_nodup := by
                rw [← List.concat_eq_append]
                exact h.tasks.queue_nodup.concat fun hd => hnew (h.tasks.queue_enqueued t hd)
              completed_nodup := h.tasks.completed_nodup
              queue_held := fun d hd w hw => by
                rcases List.mem_append.mp hd with hd | hd
                · exact h.tasks.queue_held d hd w hw
                · rw [List.mem_singleton.mp hd] at hw
                  exact hnew (h.tasks.held_enqueued w t hw)
              queue_completed := fun d hd hd' => by
                rcases List.mem_append.mp hd with hd | hd
                · exact h.tasks.queue_completed d hd hd'
                · rw [List.mem_singleton.mp hd] at hd'
                  exact hnew (h.tasks.completed_enqueued t hd')
              held_completed := h.tasks.held_completed
              held_unique := h.tasks.held_unique
              decrementing_returned := fun w d hw => hsub _ (h.tasks.decrementing_returned w d hw)
              completed_returned := fun d hd => hsub _ (h.tasks.completed_returned d hd) }
          counts := h.counts.mono rfl rfl rfl rfl rfl
          calls :=
            { call_lt := fun y hy => by
                rcases List.mem_cons.mp hy with rfl | hy
                · exact hlt
                · exact h.calls.call_lt y (by rw [hs]; exact List.mem_cons_of_mem _ hy)
              call_ok := fun y hy => by
                rcases List.mem_cons.mp hy with rfl | hy
                · intro j hij hj hd
                  rcases hadded _ hd with hd | hd
                  · exact hfresh j (by omega) hj hd
                  · have hjlt := hj.trans (h.counts.count_lt e)
                    have := taskDescriptor_inj hjlt (hi.trans (h.counts.count_lt e)) hd
                    omega
                · exact (h.calls.call_ok y (by rw [hs]; exact List.mem_cons_of_mem _ hy)).mono
                    rfl rfl (fun _ => id) hsub fun hp => absurd hp (hrestpush y hy)
              push_at_head := hrestpush }
          waits := fun e' hk he' => (h.waits e' hk he').imp_right fun hm => by
            rw [hs] at hm
            refine List.mem_cons_of_mem _ ((List.mem_cons.mp hm).resolve_left (by simp))
          events := h.events.mono rfl rfl
            (fun e' => by rw [hs]; simp) rfl (fun _ => Or.inl) rfl
            (fun _ => id) hsub fun e' => hold _ (by simp)
          guarded := h.guarded.append fun hf => by
            -- a finished event has no task left to push
            have hready := h.events.finished_ready e
              ((h.events.finished_recorded e).mpr (hevent ▸ hf))
            exact hnew (h.tasks.completed_enqueued t (hready.1 i hi)) }
    · refine h.leader_local rfl rfl rfl rfl rfl rfl rfl rfl ?_ (fun _ => Or.inl) (fun _ => rfl)
        (h.calls.mono rfl rfl rfl (fun _ => id) (fun _ => id) (fun _ => id)) ?_
      · exact
          { pending_count := h.counts.pending_count
            count_lt := h.counts.count_lt
            finalize_count := h.counts.finalize_count
            counter := fun hne => absurd rfl hne }
      · intro e' hk he'
        have hne : e' ≠ e := by
          rintro rfl
          rw [h.counts.finalize_count _ hk] at hi
          exact Nat.not_lt_zero i hi
        change Function.update c.tasksRemaining e 0 e' ≠ 0 ∨ _
        rw [Function.update_of_ne hne]
        exact h.waits e' hk he'
  · exact h.drop_call hs (fun _ => ⟨by simp, by simp⟩) _ _ _ (fun _ => Or.inl)

/-- Finishing an event whose tasks have all returned, with the notifications
that are due put on the stack. -/
theorem Inv.finish (h : Inv g c) (hs : c.stack = .finishEvent e :: rest)
    (hqueue : c'.queue = c.queue) (hworker : c'.worker = c.worker)
    (hcompleted : c'.completed = c.completed) (hstatus : c'.status = c.status)
    (hremaining : c'.tasksRemaining = c.tasksRemaining) (hcount : c'.taskCount = c.taskCount)
    (hsaw : c'.sawAborted = c.sawAborted) (hmark : c'.eventScheduled = c.eventScheduled)
    (hstate : c'.state = Function.update c.state e .finished)
    (hhistory : c'.history = c.history ++ [.eventFinished e])
    (hstack : ∀ y ∈ c'.stack, y ∈ rest ∨ ∃ x ∈ g.edges, y = .completeDependency x.child false)
    (hrest : ∀ y ∈ rest, y ∈ c'.stack)
    (hpending : ∀ e', c'.events.pendingDependencies e' =
      g.edges.countP (fun x => x.child = e' && c'.state x.parent ≠ .finished) +
        c'.stack.count (.completeDependency e' false))
    (hdependents : ∀ p, p ≠ e → c.state p ≠ .finished →
      c'.events.dependents p = (g.edges.filter fun x => x.parent = p).map Edge.child) :
    Inv g c' := by
  have hmem : LeaderCall.finishEvent e ∈ c.stack := by rw [hs]; exact List.mem_cons_self
  have hlt : e < g.eventCount := h.calls.call_lt _ hmem
  obtain ⟨hnp, hready⟩ : c.state e ≠ .pending ∧ ReadyToFinish g c e := h.calls.call_ok _ hmem
  have hrestpush : ∀ y ∈ rest, ¬ y.IsPush := fun y hy =>
    h.calls.push_at_head y (by rw [hs]; exact hy)
  have hmemc : ∀ y ∈ rest, y ∈ c.stack := fun y hy => by rw [hs]; exact List.mem_cons_of_mem _ hy
  have hsub : ∀ y ∈ c.history, y ∈ c'.history := fun y hy => by
    rw [hhistory]; exact List.mem_append_left _ hy
  have hold : ∀ y, y ≠ .eventFinished e → y ∈ c'.history → y ∈ c.history := fun y hy hm => by
    rw [hhistory] at hm
    exact (List.mem_append.mp hm).resolve_right fun hm => hy (List.mem_singleton.mp hm)
  have hself : c'.state e = .finished := by rw [hstate, Function.update_self]
  have hstateOf : ∀ e', e' ≠ e → c'.state e' = c.state e' := fun e' hne => by
    rw [hstate, Function.update_of_ne hne]
  have hnotpending : ∀ e', c.state e' ≠ .pending → c'.state e' ≠ .pending := by
    intro e' he'
    rcases eq_or_ne e' e with rfl | hne
    · rw [hself]; decide
    · rw [hstateOf e' hne]; exact he'
  have hfinished : ∀ e', c.state e' = .finished → c'.state e' = .finished := by
    intro e' he'
    rcases eq_or_ne e' e with rfl | hne
    · exact hself
    · rw [hstateOf e' hne]; exact he'
  have hready' : ∀ e', ReadyToFinish g c e' → ReadyToFinish g c' e' := fun e' hr =>
    hr.mono hcount (by rw [hcompleted]; exact fun _ => id) hsub
  refine { tasks := ?_, counts := ?_, calls := ?_, waits := ?_, events := ?_, guarded := ?_ }
  · exact h.tasks.congr hqueue hworker hcompleted (fun d => ⟨hold _ (by simp), hsub _⟩)
      (fun d => hsub _) (by rw [hcount]; exact fun _ _ => rfl)
  · exact
      { pending_count := fun e' he' => by
          rw [hcount]
          by_cases hp : c.state e' = .pending
          · exact h.counts.pending_count e' hp
          · exact absurd he' (hnotpending e' hp)
        count_lt := by rw [hcount]; exact h.counts.count_lt
        finalize_count := by rw [hcount]; exact h.counts.finalize_count
        counter := by rw [hstatus, hremaining, hcompleted, hcount]; exact h.counts.counter }
  · refine { call_lt := fun y hy => ?_, call_ok := fun y hy => ?_, push_at_head := fun y hy => ?_ }
    · rcases hstack y hy with hy | ⟨x, hx, rfl⟩
      · exact h.calls.call_lt y (hmemc y hy)
      · exact edge_child_lt hx
    · rcases hstack y hy with hy | ⟨x, hx, rfl⟩
      · have hok := h.calls.call_ok y (hmemc y hy)
        cases y with
        | trySchedule e' m => exact fun x hx hc => hfinished _ (hok x hx hc)
        | markScheduled e' => exact hnotpending e' hok
        | pushTask e' i => exact absurd trivial (hrestpush _ hy)
        | finishEvent e' => exact ⟨hnotpending e' hok.1, hready' e' hok.2⟩
        | abort e' => exact hok
        | completeDependency e' a => exact hok
        | markFinished e' => trivial
      · rfl
    · rcases hstack y (List.mem_of_mem_tail hy) with hy | ⟨x, hx, rfl⟩
      · exact hrestpush y hy
      · exact id
  · intro e' hk he'
    have hne : e' ≠ e := by
      rintro rfl
      rw [hself] at he'
      cases he'
    rw [hremaining]
    refine (h.waits e' hk (by rwa [← hstateOf e' hne])).imp_right fun hm => hrest _ ?_
    rw [hs] at hm
    exact (List.mem_cons.mp hm).resolve_left (by simpa using hne)
  · refine
      { scheduled_lt := fun e' he' => ?_
        pending_eq := hpending
        dependents_eq := fun p hp => ?_
        scheduled_ready := fun e' he' x hx hc => ?_
        not_aborted := fun e' => ⟨by rw [hsaw]; exact (h.events.not_aborted e').1, ?_⟩
        marked := fun e' he' => hnotpending e' (h.events.marked e' (by rwa [hmark] at he'))
        finished_ready := fun e' he' => ?_
        finished_recorded := fun e' => ?_ }
    · rcases eq_or_ne e' e with rfl | hne
      · exact hlt
      · exact h.events.scheduled_lt e' (by rw [← hstateOf e' hne]; exact he')
    · refine hdependents p ?_ fun hf => hp (hfinished p hf)
      rintro rfl
      exact hp hself
    · have he'' : c.state e' ≠ .pending := by
        rcases eq_or_ne e' e with rfl | hne
        · exact hnp
        · rw [← hstateOf e' hne]; exact he'
      exact hfinished _ (h.events.scheduled_ready e' he'' x hx hc)
    · rcases eq_or_ne e' e with rfl | hne
      · rw [hself]; decide
      · rw [hstateOf e' hne]; exact (h.events.not_aborted e').2
    · rcases eq_or_ne e' e with rfl | hne
      · exact hready' _ hready
      · exact hready' e' (h.events.finished_ready e' (by rw [← hstateOf e' hne]; exact he'))
    · rcases eq_or_ne e' e with rfl | hne
      · simp [hself, hhistory]
      · rw [hstateOf e' hne, h.events.finished_recorded]
        exact ⟨hsub _, hold _ (by simpa using hne)⟩
  · rw [hhistory]
    refine h.guarded.append ⟨?_, hready.2⟩
    rintro d hd rfl
    obtain ⟨i, hi, heq⟩ := h.tasks.task_of d hd
    rw [heq]
    exact h.tasks.completed_returned _ (hready.1 i hi)

/-- `FinishEvent`: the event is finished and, the first time, its dependents
are notified. -/
theorem Inv.finishEvent (h : Inv g c) (hs : c.stack = .finishEvent e :: rest) (ok : Bool) :
    Inv g (c.leaderCall g ok rest (.finishEvent e)) := by
  simp only [Config.leaderCall]
  split
  · next hst =>
    have hf : c.state e = .finished := hst.resolve_right (h.events.not_aborted e).2
    have hsame : Function.update c.state e .finished = c.state := by
      rw [← hf, Function.update_eq_self]
    refine h.finish hs rfl rfl rfl rfl rfl rfl rfl rfl rfl rfl (fun y => Or.inl) (fun _ => id)
      (fun e' => ?_) (fun p _ hp => h.events.dependents_eq p hp)
    simp only [hsame]
    rw [h.events.pending_eq e', hs, List.count_cons_of_ne (by simp)]
  · next hst =>
    have hf : c.state e ≠ .finished := fun hf => hst (Or.inl hf)
    have hdep := h.events.dependents_eq e hf
    refine h.finish hs rfl rfl rfl rfl rfl rfl rfl rfl rfl rfl (fun y hy => ?_)
      (fun y hy => List.mem_append_right _ hy) (fun e' => ?_) (fun p hne hp => ?_)
    · rcases List.mem_append.mp hy with hy | hy
      · obtain ⟨d, hd, rfl⟩ := List.mem_map.mp hy
        rw [hdep] at hd
        obtain ⟨x, hx, rfl⟩ := List.mem_map.mp hd
        exact Or.inr ⟨x, (List.mem_filter.mp hx).1, rfl⟩
      · exact Or.inl hy
    · -- the edges of the finished parent turn into notifications
      have hinj : Function.Injective fun d => LeaderCall.completeDependency d false :=
        fun a b hab => (LeaderCall.completeDependency.inj hab).1
      have hnotified : ((c.events.dependents e).map
          (fun d => LeaderCall.completeDependency d false)).count (.completeDependency e' false) =
          (c.events.dependents e).count e' :=
        List.count_map_of_injective _ _ hinj _
      have hsplit := countP_finish g.edges (fun p => c.state p ≠ .finished) e' e (by simpa using hf)
      have hstate : ∀ p, decide (Function.update c.state e .finished p ≠ .finished) =
          (decide (c.state p ≠ .finished) && decide (p ≠ e)) := by
        intro p
        rcases eq_or_ne p e with rfl | hne
        · simp
        · simp [hne]
      simp only [hstate]
      rw [h.events.pending_eq e', hs, List.count_cons_of_ne (by simp), hsplit, List.count_append,
        hnotified, hdep]
      omega
    · change Function.update c.events.dependents e [] p = _
      rw [Function.update_of_ne hne]
      exact h.events.dependents_eq p hp

/-- A notification is taken off the stack; the last one of an event puts
`TrySchedule` there. -/
theorem Inv.notified (h : Inv g c) (hs : c.stack = .completeDependency e false :: rest)
    (hqueue : c'.queue = c.queue) (hworker : c'.worker = c.worker)
    (hcompleted : c'.completed = c.completed) (hstatus : c'.status = c.status)
    (hremaining : c'.tasksRemaining = c.tasksRemaining) (hcount : c'.taskCount = c.taskCount)
    (hsaw : c'.sawAborted = c.sawAborted) (hmark : c'.eventScheduled = c.eventScheduled)
    (hstate : c'.state = c.state) (hhistory : c'.history = c.history)
    (hpending : c'.events.pendingDependencies = Function.update c.events.pendingDependencies e
      (c.events.pendingDependencies e - 1))
    (hdependents : c'.events.dependents = c.events.dependents)
    (hstack : ∀ y ∈ c'.stack, y ∈ rest ∨ (y = .trySchedule e false ∧ ParentsFinished g c e))
    (hrest : ∀ y ∈ rest, y ∈ c'.stack)
    (hstackCount : ∀ e', c'.stack.count (.completeDependency e' false) =
      rest.count (.completeDependency e' false)) : Inv g c' := by
  have hmem : LeaderCall.completeDependency e false ∈ c.stack := by
    rw [hs]; exact List.mem_cons_self
  have hlt : e < g.eventCount := h.calls.call_lt _ hmem
  have hrestpush : ∀ y ∈ rest, ¬ y.IsPush := fun y hy =>
    h.calls.push_at_head y (by rw [hs]; exact hy)
  have hhist : ∀ y, y ∈ c'.history ↔ y ∈ c.history := by rw [hhistory]; exact fun _ => Iff.rfl
  have hcomp : ∀ d ∈ c.completed, d ∈ c'.completed := by rw [hcompleted]; exact fun _ => id
  refine { tasks := ?_, counts := ?_, calls := ?_, waits := ?_, events := ?_, guarded := ?_ }
  · exact h.tasks.congr hqueue hworker hcompleted (fun d => hhist _) (fun d => (hhist _).mpr)
      (by rw [hcount]; exact fun _ _ => rfl)
  · exact h.counts.mono hstate hcount hstatus hremaining hcompleted
  · refine { call_lt := fun y hy => ?_, call_ok := fun y hy => ?_, push_at_head := fun y hy => ?_ }
    · rcases hstack y hy with hy | ⟨rfl, _⟩
      · exact h.calls.call_lt y (by rw [hs]; exact List.mem_cons_of_mem _ hy)
      · exact hlt
    · rcases hstack y hy with hy | ⟨rfl, hp⟩
      · exact (h.calls.call_ok y (by rw [hs]; exact List.mem_cons_of_mem _ hy)).mono hstate hcount
          hcomp (fun _ => (hhist _).mpr) (fun _ _ => (hhist _).mp)
      · intro x hx hc
        rw [hstate]; exact hp x hx hc
    · rcases hstack y (List.mem_of_mem_tail hy) with hy | ⟨rfl, _⟩
      · exact hrestpush y hy
      · exact id
  · intro e' hk he'
    rw [hstate] at he'
    rw [hremaining]
    refine (h.waits e' hk he').imp_right fun hm => hrest _ ?_
    rw [hs] at hm
    exact (List.mem_cons.mp hm).resolve_left (by simp)
  · exact
      { scheduled_lt := by rw [hstate]; exact h.events.scheduled_lt
        pending_eq := fun e' => by
          have hpe := h.events.pending_eq e'
          rw [hs] at hpe
          rw [hpending, hstate, hstackCount]
          rcases eq_or_ne e' e with rfl | hne
          · rw [List.count_cons_self] at hpe
            rw [Function.update_self, hpe]
            omega
          · rw [List.count_cons_of_ne (by simpa using hne.symm)] at hpe
            rw [Function.update_of_ne hne, hpe]
        dependents_eq := by rw [hstate, hdependents]; exact h.events.dependents_eq
        scheduled_ready := fun e' he' x hx hc => by
          rw [hstate] at he' ⊢
          exact h.events.scheduled_ready e' he' x hx hc
        not_aborted := by rw [hsaw, hstate]; exact h.events.not_aborted
        marked := by rw [hmark, hstate]; exact h.events.marked
        finished_ready := fun e' he' => by
          rw [hstate] at he'
          exact (h.events.finished_ready e' he').mono hcount hcomp fun _ => (hhist _).mpr
        finished_recorded := fun e' => by
          rw [hstate, h.events.finished_recorded]
          exact (hhist _).symm }
  · rw [hhistory]; exact h.guarded

/-- `CompleteDependency`: the last notification schedules the event. -/
theorem Inv.completeDependency (h : Inv g c) {a : Bool}
    (hs : c.stack = .completeDependency e a :: rest) (ok : Bool) :
    Inv g (c.leaderCall g ok rest (.completeDependency e a)) := by
  obtain rfl : a = false := h.calls.call_ok (.completeDependency e a) (by
    rw [hs]; exact List.mem_cons_self)
  have hsaw : Function.update c.sawAborted e (c.sawAborted e || false) = c.sawAborted := by
    rw [Bool.or_false, Function.update_eq_self]
  simp only [Config.leaderCall]
  split
  · exact h.notified hs rfl rfl rfl rfl rfl rfl hsaw rfl rfl rfl rfl rfl (fun y => Or.inl)
      (fun _ => id) (fun _ => rfl)
  · next hprev =>
    -- the last pending dependency: no parent is unfinished, no other notification is out
    have hparents : ParentsFinished g c e := by
      intro x hx hc
      by_contra hf
      have hpos : 0 < g.edges.countP (fun x => x.child = e && c.state x.parent ≠ .finished) :=
        List.countP_pos_iff.mpr ⟨x, hx, by simp [hc, hf]⟩
      have hpe := h.events.pending_eq e
      rw [hs, List.count_cons_self, not_not.mp hprev] at hpe
      omega
    split
    · next hsawe =>
      rw [hsaw, (h.events.not_aborted e).1] at hsawe
      cases hsawe
    · exact h.notified hs rfl rfl rfl rfl rfl rfl hsaw rfl rfl rfl rfl rfl
        (fun y hy => (List.mem_cons.mp hy).symm.imp_right fun hy => ⟨hy, hparents⟩)
        (fun y hy => List.mem_cons_of_mem _ hy) (fun e' => List.count_cons_of_ne (by simp))

/-- The leader loop notes an event as scheduled only when it was. -/
theorem marked_update (e' : Nat)
    (he' : Function.update c.eventScheduled e (c.eventScheduled e || c.state e = .scheduled) e' =
      true) : c.eventScheduled e' = true ∨ c.state e' ≠ .pending := by
  rcases eq_or_ne e' e with rfl | hne
  · rw [Function.update_self, Bool.or_eq_true, decide_eq_true_eq] at he'
    refine he'.imp_right fun hs => ?_
    rw [hs]; decide
  · rw [Function.update_of_ne hne] at he'
    exact Or.inl he'

/-- An event the loop sees scheduled with a counter of zero has no task left. -/
theorem Inv.ready_of_zero (h : Inv g c) (hstack : c.stack = []) (hstatus : c.status ≠ .failed)
    (hs : c.state e ≠ .pending) (hzero : c.tasksRemaining e = 0) : ReadyToFinish g c e := by
  by_cases hk : kindOf e = .finalize
  · cases hst : c.state e with
    | pending => exact absurd hst hs
    | aborted => exact absurd hst (h.events.not_aborted e).2
    | finished => exact h.events.finished_ready e hst
    | scheduled =>
      rcases h.waits e hk hst with hne | hm
      · exact absurd hzero hne
      · rw [hstack] at hm; cases hm
  · refine ⟨h.tasks.all_completed ?_, fun hk' => absurd hk' hk⟩
    have hcounter := h.counts.counter hstatus e hk
    rw [hzero] at hcounter
    simpa using hcounter

/-- The two calls with which the loop finishes an event. -/
theorem CallInv.finishing (hlt : e < g.eventCount) (hs : c.state e ≠ .pending)
    (hready : ReadyToFinish g c e) (hstack : c.stack = [.finishEvent e, .markFinished e]) :
    CallInv g c where
  call_lt y hy := by
    rw [hstack] at hy
    rcases List.mem_cons.mp hy with rfl | hy
    · exact hlt
    · rw [List.mem_singleton.mp hy]; exact hlt
  call_ok y hy := by
    rw [hstack] at hy
    rcases List.mem_cons.mp hy with rfl | hy
    · exact ⟨hs, hready⟩
    · rw [List.mem_singleton.mp hy]; trivial
  push_at_head y hy := by
    rw [hstack] at hy
    rw [List.mem_singleton.mp hy]; exact id

/-- **Loop lemma.** The body of the leader loop finishes an event only when its
tasks have returned. -/
theorem Inv.inspect (h : Inv g c) (hstack : c.stack = []) (hstatus : c.status ≠ .failed)
    (hlt : e < g.eventCount) (ok : Bool) : Inv g (c.inspect ok e) := by
  have hwaits : ∀ e', kindOf e' = .finalize → c.state e' = .scheduled → c.tasksRemaining e' ≠ 0 := by
    intro e' hk he'
    refine (h.waits e' hk he').resolve_right fun hm => ?_
    rw [hstack] at hm
    cases hm
  have hcount : ∀ e', ([.finishEvent e, .markFinished e] : List LeaderCall).count
      (.completeDependency e' false) = c.stack.count (.completeDependency e' false) := by
    intro e'
    rw [hstack]
    simp
  simp only [Config.inspect]
  split
  · next hab => simp [(h.events.not_aborted e).2] at hab
  · split
    · next hfin =>
      simp only [Bool.and_eq_true, decide_eq_true_eq] at hfin
      obtain ⟨⟨⟨⟨hk, _⟩, _⟩, hst⟩, _⟩ := hfin
      have hnp : c.state e ≠ .pending := by rw [hst]; decide
      split
      · have hsub : ∀ y ∈ c.history, y ∈ c.history ++ [.finalized (pipelineOf e)] := fun y hy =>
          List.mem_append_left _ hy
        have hold : ∀ y, (∀ pid, y ≠ .finalized pid) →
            y ∈ c.history ++ [.finalized (pipelineOf e)] → y ∈ c.history := fun y hy hm =>
          (List.mem_append.mp hm).resolve_right fun hm => hy _ (List.mem_singleton.mp hm)
        refine
          { tasks := h.tasks.congr rfl rfl rfl (fun d => ⟨hold _ (by simp), hsub _⟩)
              (fun d => hsub _) (fun _ _ => rfl)
            counts := ?_
            calls := CallInv.finishing hlt hnp ⟨fun i hi => ?_, fun _ => by simp⟩ rfl
            waits := fun e' hk' he' => ?_
            events := h.events.mono rfl rfl hcount rfl marked_update rfl (fun _ => id) hsub
              fun e' => hold _ (by simp)
            guarded := h.guarded.append trivial }
        · exact
            { pending_count := h.counts.pending_count
              count_lt := h.counts.count_lt
              finalize_count := h.counts.finalize_count
              counter := fun hne e' hk' => by
                have hee : e' ≠ e := by rintro rfl; exact hk' hk
                change (Function.update c.tasksRemaining e 0 e').toNat + _ = _
                rw [Function.update_of_ne hee]
                exact h.counts.counter hne e' hk' }
        · change i < c.taskCount e at hi
          rw [h.counts.finalize_count e hk] at hi
          exact absurd hi (Nat.not_lt_zero i)
        · rcases eq_or_ne e' e with rfl | hee
          · exact Or.inr List.mem_cons_self
          · refine Or.inl ?_
            change Function.update c.tasksRemaining e 0 e' ≠ 0
            rw [Function.update_of_ne hee]
            exact hwaits e' hk' he'
      · exact h.leader_local rfl rfl rfl rfl rfl rfl rfl rfl
          { pending_count := h.counts.pending_count
            count_lt := h.counts.count_lt
            finalize_count := h.counts.finalize_count
            counter := fun hne => absurd rfl hne }
          marked_update (fun _ => rfl)
          (h.calls.mono rfl rfl rfl (fun _ => id) (fun _ => id) (fun _ => id)) h.waits
    · split
      · next hfin =>
        simp only [Bool.and_eq_true, decide_eq_true_eq, Bool.or_eq_true] at hfin
        obtain ⟨⟨hsch, _⟩, hzero⟩ := hfin
        have hnp : c.state e ≠ .pending := by
          rcases hsch with hm | hs
          · exact h.events.marked e hm
          · rw [hs]; decide
        have hready := h.ready_of_zero hstack hstatus hnp hzero
        exact h.leader_local rfl rfl rfl rfl rfl rfl rfl rfl (h.counts.mono rfl rfl rfl rfl rfl)
          marked_update hcount
          (CallInv.finishing hlt hnp (hready.mono rfl (fun _ => id) (fun _ => id)) rfl)
          (fun e' hk' he' => Or.inl (hwaits e' hk' he'))
      · exact h.leader_local rfl rfl rfl rfl rfl rfl rfl rfl (h.counts.mono rfl rfl rfl rfl rfl)
          marked_update (fun _ => rfl)
          (h.calls.mono rfl rfl rfl (fun _ => id) (fun _ => id) (fun _ => id)) h.waits

/-- The leader changes its loop variables, or gives up. -/
theorem Inv.leader_idle (h : Inv g c) {scan : Nat} {progress shut : Bool} {status : LeaderStatus}
    {stack : List LeaderCall} (hstack : c.stack = stack)
    (hstatus : status ≠ .failed → c.status ≠ .failed) :
    Inv g { c with
      stack := stack, scan := scan, progress := progress, status := status,
      shutdownRequested := shut } := by
  subst hstack
  exact h.leader_local rfl rfl rfl rfl rfl rfl rfl rfl
    { pending_count := h.counts.pending_count
      count_lt := h.counts.count_lt
      finalize_count := h.counts.finalize_count
      counter := fun hne => h.counts.counter (hstatus hne) }
    (fun _ => Or.inl) (fun _ => rfl)
    (h.calls.mono rfl rfl rfl (fun _ => id) (fun _ => id) (fun _ => id)) h.waits

/-- **Leader step lemma.** -/
theorem Inv.leader (h : Inv g c) (ok : Bool) : Inv g (c.leader g ok) := by
  unfold Config.leader
  cases hst : c.status with
  | done => exact h
  | failed => exact h
  | looping =>
    have hne : c.status ≠ .failed := by rw [hst]; decide
    cases hs : c.stack with
    | cons call rest =>
      simp only
      cases call with
      | trySchedule e mark => exact h.trySchedule hs ok
      | pushTask e i => exact h.pushTask hs ok
      | finishEvent e => exact h.finishEvent hs ok
      | completeDependency e a => exact h.completeDependency hs ok
      | abort e =>
        have habort : False := h.calls.call_ok (.abort e) (by rw [hs]; exact List.mem_cons_self)
        exact habort.elim
      | markScheduled e =>
        have hnp : c.state e ≠ .pending := h.calls.call_ok (.markScheduled e) (by
          rw [hs]; exact List.mem_cons_self)
        refine h.drop_call hs (fun _ => ⟨by simp, by simp⟩) _ _ _ fun e' he' => ?_
        rcases eq_or_ne e' e with rfl | hee
        · exact Or.inr hnp
        · rw [Function.update_of_ne hee] at he'
          exact Or.inl he'
      | markFinished e =>
        exact h.drop_call hs (fun _ => ⟨by simp, by simp⟩) _ _ _ fun _ => Or.inl
    | nil =>
      simp only
      split
      · exact h.leader_idle hs fun hf => absurd rfl hf
      · split
        · next hlt => exact h.inspect hs hne hlt ok
        · split
          · exact h.leader_idle hs fun _ => hne
          · split
            · exact h.leader_idle hs fun _ => hne
            · exact h.leader_idle hs fun _ => hne

theorem Inv.step (h : Inv g c) (a : Action W) : Inv g (c.step g a) := by
  cases a with
  | leader ok => exact h.leader ok
  | worker w result ok => exact h.workerStep w result ok

end LeaderSteps

section Runs
variable {g : PipelineGraph} {W : Nat}

theorem mem_roots {pid : Nat} (h : pid ∈ g.roots) :
    ∃ p, g.pipelines[pid]? = some p ∧ p.dependsOn = [] := by
  obtain ⟨⟨p, i⟩, hm, rfl⟩ := List.mem_map.mp h
  obtain ⟨hm, hempty⟩ := List.mem_filter.mp hm
  exact ⟨p, List.mem_zipIdx_iff_getElem?.mp hm, by simpa using hempty⟩

/-- A pipeline without dependencies waits for nobody. -/
theorem no_edge_of_root {pid : Nat} {p : Pipeline} (hp : g.pipelines[pid]? = some p)
    (hempty : p.dependsOn = []) : ∀ x ∈ g.edges, x.child ≠ runId pid := by
  intro x hx hc
  rcases (mem_edges_iff x).mp hx with ⟨q, _, rfl | rfl⟩ | ⟨q, p', hp', d, hd, rfl⟩
  · simp only [combineId, runId] at hc; omega
  · simp only [finalizeId, runId] at hc; omega
  · obtain rfl : q = pid := by simp only [runId] at hc; omega
    rw [hp] at hp'
    cases hp'
    rw [hempty] at hd
    cases hd

theorem inv_initial : Inv g (Config.initial g : Config W) where
  tasks :=
    { task_of := fun d hd => by cases hd
      queue_enqueued := fun d hd => by cases hd
      held_enqueued := fun w d hd => by cases hd
      completed_enqueued := fun d hd => by cases hd
      queue_nodup := List.nodup_nil
      completed_nodup := List.nodup_nil
      queue_held := fun d hd => by cases hd
      queue_completed := fun d hd => by cases hd
      held_completed := fun w d hd => by cases hd
      held_unique := fun w v d hd => by cases hd
      decrementing_returned := fun w d hd => by cases hd
      completed_returned := fun d hd => by cases hd }
  counts :=
    { pending_count := fun _ _ => rfl
      count_lt := fun _ => by change 0 < _; decide
      finalize_count := fun _ _ => rfl
      counter := fun _ _ _ => rfl }
  calls :=
    { call_lt := fun call hc => by
        obtain ⟨pid, hpid, rfl⟩ := List.mem_map.mp hc
        obtain ⟨p, hp, _⟩ := mem_roots hpid
        have hlt := (List.getElem?_eq_some_iff.mp hp).1
        change pid * 3 < 3 * _
        omega
      call_ok := fun call hc => by
        obtain ⟨pid, hpid, rfl⟩ := List.mem_map.mp hc
        obtain ⟨p, hp, hempty⟩ := mem_roots hpid
        exact fun x hx hc => absurd hc (no_edge_of_root hp hempty x hx)
      push_at_head := fun call hc => by
        obtain ⟨pid, _, rfl⟩ := List.mem_map.mp (List.mem_of_mem_tail hc)
        exact id }
  waits e _ he := by cases he
  events :=
    { scheduled_lt := fun e he => absurd rfl he
      pending_eq := fun e => by
        have hcount : ((g.roots.map fun pid => LeaderCall.trySchedule (runId pid) true).count
            (.completeDependency e false)) = 0 := List.count_eq_zero.mpr (by simp)
        change (g.edges.foldl EventGraph.addDependency ⟨fun _ => 0, fun _ => []⟩).pendingDependencies
          e = _ + (((g.roots.map fun pid => LeaderCall.trySchedule (runId pid) true).count
            (.completeDependency e false) : Nat) : Int)
        rw [pendingDependencies_foldl, hcount]
        simp [Config.initial]
      dependents_eq := fun p _ => by
        change (g.edges.foldl EventGraph.addDependency ⟨fun _ => 0, fun _ => []⟩).dependents p = _
        rw [dependents_foldl]
        rfl
      scheduled_ready := fun e he => absurd rfl he
      not_aborted := fun _ => ⟨rfl, by change EventState.pending ≠ _; decide⟩
      marked := fun e he => by cases he
      finished_ready := fun e he => by cases he
      finished_recorded := fun e => ⟨fun he => (by cases he), fun he => (by cases he)⟩ }
  guarded pre x post h := by
    change [] = _ at h
    simp at h

theorem inv_of_reachable {c : Config W} (h : (system g W).Reachable c) : Inv g c := by
  refine h.invariant (I := Inv g) ?_ ?_
  · rintro c rfl
    exact inv_initial
  · rintro c a c' hinv rfl
    exact hinv.step a

/-- The order that a run of the scheduler keeps. -/
structure Ordered (g : PipelineGraph) (history : List HistoryEvent) : Prop where
  /-- When an event finishes, every task it scheduled has returned as finished. -/
  finish_after_tasks : ∀ pre e post, history = pre ++ .eventFinished e :: post →
    ∀ d, .enqueued d ∈ history → eventOf d = e → .returned d .finished ∈ pre
  /-- When a COMBINE task starts, every RUN task of its pipeline has returned as finished. -/
  combine_after_run : ∀ pre d post, history = pre ++ .started d :: post → d.kind = .combine →
    .eventFinished (runId d.pipelineId.toNat) ∈ pre ∧
    ∀ d', .enqueued d' ∈ history → d'.kind = .run → d'.pipelineId = d.pipelineId →
      .returned d' .finished ∈ pre
  /-- When a RUN task starts, every pipeline its pipeline depends on has been finalized. -/
  run_after_finalize : ∀ pre d post, history = pre ++ .started d :: post → d.kind = .run →
    ∀ p, g.pipelines[d.pipelineId.toNat]? = some p → ∀ dep ∈ p.dependsOn,
      .finalized dep ∈ pre ∧ .eventFinished (finalizeId dep) ∈ pre

/-- The event of an enqueued task, and what its descriptor says about it. -/
theorem Inv.enqueued_event {c : Config W} (h : Inv g c) {d : TaskDescriptor}
    (hd : .enqueued d ∈ c.history) :
    eventOf d < g.eventCount ∧ d.kind = kindOf (eventOf d) ∧
      d.pipelineId.toNat = pipelineOf (eventOf d) := by
  have hlt := h.events.scheduled_lt _ (h.scheduled_of_enqueued hd)
  obtain ⟨i, _, heq⟩ := h.tasks.task_of d hd
  refine ⟨hlt, ?_, ?_⟩
  · calc d.kind = (taskDescriptor g (eventOf d) i).kind := congrArg _ heq
      _ = kindOf (eventOf d) := taskDescriptor_kind ..
  · calc d.pipelineId.toNat = (taskDescriptor g (eventOf d) i).pipelineId.toNat :=
          congrArg (fun t => t.pipelineId.toNat) heq
      _ = pipelineOf (eventOf d) := taskDescriptor_pipelineId (hlt.trans_le g.ids_fit) i

theorem kindOf_eq_run {e : Nat} (h : kindOf e = .run) : e = runId (pipelineOf e) := by
  unfold kindOf at h
  unfold runId pipelineOf
  split at h
  · omega
  · split at h <;> cases h

theorem kindOf_eq_combine {e : Nat} (h : kindOf e = .combine) : e = combineId (pipelineOf e) := by
  unfold kindOf at h
  unfold combineId pipelineOf
  split at h
  · cases h
  · split at h
    · omega
    · cases h

theorem kindOf_finalizeId (pid : Nat) : kindOf (finalizeId pid) = .finalize := by
  have hmod : (pid * 3 + 2) % 3 = 2 := by omega
  simp [kindOf, finalizeId, hmod]

theorem pipelineOf_finalizeId (pid : Nat) : pipelineOf (finalizeId pid) = pid := by
  unfold pipelineOf finalizeId; omega

/-- The tasks of a finished event have all returned, whenever they were enqueued. -/
theorem Inv.tasks_before_finish {c : Config W} (h : Inv g c) {pre post : List HistoryEvent}
    {e : Nat} (heq : c.history = pre ++ .eventFinished e :: post) {d : TaskDescriptor}
    (hd : .enqueued d ∈ c.history) (he : eventOf d = e) : .returned d .finished ∈ pre := by
  have hguard : Guard g pre (.eventFinished e) := h.guarded pre _ post heq
  rw [heq] at hd
  rcases List.mem_append.mp hd with hd | hd
  · exact hguard.1 d hd he
  · rcases List.mem_cons.mp hd with hd | hd
    · cases hd
    · -- a task enqueued after its event finished would break its own guard
      obtain ⟨mid, last, rfl⟩ := List.append_of_mem hd
      have hlate : Guard g (pre ++ .eventFinished e :: mid) (.enqueued d) := by
        refine h.guarded _ _ last ?_
        rw [heq]
        simp
      exact absurd (by rw [he]; simp) hlate

/-- **Scheduling order.** For every pipeline graph, any number of workers and any
order in which they pop, execute, push again and complete tasks: an event
finishes only after all its tasks returned as finished, a COMBINE task starts
only after all RUN tasks of its pipeline, and a RUN task only after the FINALIZE
of every pipeline it depends on. -/
theorem scheduler_ordered {c : Config W} (h : (system g W).Reachable c) :
    Ordered g c.history := by
  have hinv := inv_of_reachable h
  refine
    { finish_after_tasks := fun pre e post heq d hd he => hinv.tasks_before_finish heq hd he
      combine_after_run := fun pre d post heq hk => ?_
      run_after_finalize := fun pre d post heq hk p hp dep hdep => ?_ }
  all_goals
    obtain ⟨henq, hparents⟩ : Guard g pre (.started d) := hinv.guarded pre _ post heq
    have henq' : .enqueued d ∈ c.history := by rw [heq]; exact List.mem_append_left _ henq
    obtain ⟨hlt, hkind, hpid⟩ := hinv.enqueued_event henq'
  · rw [hk] at hkind
    have he := kindOf_eq_combine hkind.symm
    have hlt' : pipelineOf (eventOf d) < g.pipelines.length := by
      unfold PipelineGraph.eventCount at hlt
      unfold pipelineOf
      omega
    have hrun := hparents _ (combine_edge hlt') he.symm
    rw [← hpid] at hrun
    refine ⟨hrun, fun d' hd' hk' hp' => ?_⟩
    obtain ⟨_, hkind', hpid'⟩ := hinv.enqueued_event hd'
    rw [hk'] at hkind'
    have he' : eventOf d' = runId d.pipelineId.toNat := by
      rw [kindOf_eq_run hkind'.symm, ← hpid', hp']
    obtain ⟨mid, last, rfl⟩ := List.append_of_mem hrun
    have hsplit : c.history = mid ++ .eventFinished (runId d.pipelineId.toNat) ::
        (last ++ .started d :: post) := by rw [heq]; simp
    exact List.mem_append_left _ (hinv.tasks_before_finish hsplit hd' he')
  · rw [hk] at hkind
    have he := kindOf_eq_run hkind.symm
    rw [← hpid] at he
    have hfin := hparents _ (run_edge hp hdep) he.symm
    refine ⟨?_, hfin⟩
    obtain ⟨mid, last, rfl⟩ := List.append_of_mem hfin
    have hguard : Guard g mid (.eventFinished (finalizeId dep)) :=
      hinv.guarded mid _ (last ++ .started d :: post) (by rw [heq]; simp)
    have hmem := hguard.2 (kindOf_finalizeId dep)
    rw [pipelineOf_finalizeId] at hmem
    exact List.mem_append_left _ hmem

/-- A build pipeline and the pipeline that probes its hash table. -/
def buildAndProbe : PipelineGraph where
  pipelines := [⟨false, 0, [], 0, .hashJoin, 1, []⟩, ⟨false, 0, [], 0, .output, 1, [0]⟩]
  workerCount := 1
  ids_fit := by decide
  deps_lt := by decide

/-- The build task is pushed again once, then combined and finalized, and the
probe task starts. -/
def buildAndProbeRun : Config 1 :=
  (List.replicate 4 (Action.leader true) ++ List.replicate 4 (Action.worker 0 .notFinished true) ++
    List.replicate 5 (Action.worker 0 .finished true) ++ List.replicate 12 (Action.leader true) ++
    List.replicate 5 (Action.worker 0 .finished true) ++ List.replicate 24 (Action.leader true) ++
    List.replicate 2 (Action.worker 0 .finished true)).foldl
    (Config.step buildAndProbe) (Config.initial buildAndProbe)

theorem scheduler_ordered_buildAndProbe :
    buildAndProbeRun.history.getLast? =
      some (.started (taskDescriptor buildAndProbe (runId 1) 0)) ∧
    Ordered buildAndProbe buildAndProbeRun.history :=
  ⟨by decide +kernel,
    scheduler_ordered (TransitionSystem.reachable_foldl _ (.initial rfl))⟩

end Runs
end EventScheduler
end PgYaap
