import Mathlib
import PgYaap.EventLifecycle
import PgYaap.EventSchedulerSafety

/-! # The lifecycle of events, proved

Everything follows from one division of the edges: those notified and those
whose notification is still a pending call are together exactly the edges with a
settled parent. A pending count of zero then says that every dependency was
notified, and the abort flag which of them aborted. -/
namespace PgYaap
namespace EventLifecycle

open EventScheduler (EventState Edge EventGraph)

section Invariants

def Occurrence.edge? : Occurrence → Option Edge
  | .notified x => some x
  | _ => none

def Call.edge? : Call → Option Edge
  | .completeDependency x _ => some x
  | _ => none

/-- The dependencies notified so far. -/
def notifiedEdges (history : List Occurrence) : List Edge := history.filterMap Occurrence.edge?

/-- The dependencies about to be notified. -/
def stackedEdges (stack : List Call) : List Edge := stack.filterMap Call.edge?

variable (S : EventSystem)

/-- The dependencies on settled events. -/
def settledEdges (state : Nat → EventState) : List Edge :=
  S.edges.filter fun x => Settled (state x.parent)

/-- What a pending call relies on. -/
def CallOk (c : Config) : Call → Prop
  | .trySchedule e => c.state e = .pending → c.DependenciesFinished S e
  | .finishEvent e => c.state e ≠ .aborted ∧ c.DependenciesFinished S e
  | .abort e => c.state e ≠ .finished
  | .completeDependency x a => a = true ↔ c.state x.parent = .aborted
  | .clearDependents e => Settled (c.state e)

/-- The calls that wait below the innermost one belong to loops of `NotifyDependents`. -/
def Call.InLoop : Call → Prop
  | .completeDependency _ _ => True
  | .clearDependents _ => True
  | _ => False

/-- What must have been recorded before an event is scheduled. -/
def ScheduleGuard (pre : List Occurrence) (o : Occurrence) : Prop :=
  ∀ e, o = .scheduled e → ∀ x ∈ S.edges, x.child = e → .finished x.parent ∈ pre

/-- **The lifecycle invariant.** -/
structure Inv (c : Config) : Prop where
  edges_perm : (notifiedEdges c.history ++ stackedEdges c.stack).Perm (settledEdges S c.state)
  pending_eq : ∀ e, c.events.pendingDependencies e =
    S.edges.countP (fun x => x.child = e) - (notifiedEdges c.history).countP fun x => x.child = e
  dependents_eq : ∀ p, ¬ Settled (c.state p) →
    c.events.dependents p = (S.edges.filter fun x => x.parent = p).map Edge.child
  saw_iff : ∀ e, c.sawAborted e = true ↔
    ∃ x ∈ notifiedEdges c.history, x.child = e ∧ c.state x.parent = .aborted
  ready : ∀ e, c.state e = .scheduled ∨ c.state e = .finished → c.DependenciesFinished S e
  call_ok : ∀ call ∈ c.stack, CallOk S c call
  tail_inLoop : ∀ call ∈ c.stack.tail, call.InLoop
  finished_iff : ∀ e, .finished e ∈ c.history ↔ c.state e = .finished
  aborted_iff : ∀ e, .aborted e ∈ c.history ↔ c.state e = .aborted
  scheduled_ready : TransitionSystem.RecordedUnder (ScheduleGuard S) c.history

end Invariants

section Bookkeeping
variable {S : EventSystem} {c c' : Config} {rest : List Call} {call : Call} {e : Nat}

@[simp] theorem notifiedEdges_append (h h' : List Occurrence) :
    notifiedEdges (h ++ h') = notifiedEdges h ++ notifiedEdges h' := List.filterMap_append

@[simp] theorem stackedEdges_append (s s' : List Call) :
    stackedEdges (s ++ s') = stackedEdges s ++ stackedEdges s' := List.filterMap_append

theorem notifiedEdges_singleton (x : Occurrence) : notifiedEdges [x] = x.edge?.toList := by
  cases x <;> rfl

theorem stackedEdges_cons (call : Call) (rest : List Call) :
    stackedEdges (call :: rest) = call.edge?.toList ++ stackedEdges rest := by
  cases call <;> rfl

@[simp] theorem mem_notifiedEdges {h : List Occurrence} {x : Edge} :
    x ∈ notifiedEdges h ↔ .notified x ∈ h := by
  unfold notifiedEdges
  rw [List.mem_filterMap]
  constructor
  · rintro ⟨y, hy, heq⟩
    cases y with
    | notified z =>
      obtain rfl : z = x := Option.some.inj heq
      exact hy
    | _ => cases heq
  · intro hx
    exact ⟨_, hx, rfl⟩

theorem count_notifiedEdges (h : List Occurrence) (x : Edge) :
    (notifiedEdges h).count x = h.count (.notified x) := by
  induction h with
  | nil => rfl
  | cons y h ih =>
    show (notifiedEdges ([y] ++ h)).count x = _
    rw [notifiedEdges_append, List.count_append, ih, List.count_cons, notifiedEdges_singleton]
    cases y with
    | notified z =>
      by_cases hz : z = x
      · subst hz; simp [Occurrence.edge?]; omega
      · simp [Occurrence.edge?, hz]
    | _ => simp [Occurrence.edge?]

/-- The notifications that `NotifyDependents` is about to send. -/
theorem stackedEdges_notify (children : List Nat) (p : Nat) (a : Bool) :
    stackedEdges (children.map fun d => .completeDependency ⟨d, p⟩ a) =
      children.map fun d => ⟨d, p⟩ := by
  induction children with
  | nil => rfl
  | cons d ds ih =>
    rw [List.map_cons, stackedEdges_cons, ih]
    rfl

theorem map_child_parent (edges : List Edge) (p : Nat) :
    ((edges.filter fun x => x.parent = p).map Edge.child).map (fun d => (⟨d, p⟩ : Edge)) =
      edges.filter fun x => x.parent = p := by
  rw [List.map_map]
  conv_rhs => rw [← List.map_id (edges.filter fun x => x.parent = p)]
  refine List.map_congr_left ?_
  intro x hx
  have hp : x.parent = p := by simpa using (List.mem_filter.mp hx).2
  cases x
  simp_all

/-- Settling an event adds its edges to the settled ones. -/
theorem settledEdges_update {state : Nat → EventState} {p : Nat} {s : EventState}
    (hp : ¬ Settled (state p)) (hs : Settled s) :
    (settledEdges S (Function.update state p s)).Perm
      (settledEdges S state ++ S.edges.filter fun x => x.parent = p) := by
  unfold settledEdges
  induction S.edges with
  | nil => exact .refl _
  | cons x xs ih =>
    by_cases hx : x.parent = p
    · have hold : ¬ Settled (state x.parent) := by rwa [hx]
      have hnew : Settled (Function.update state p s x.parent) := by
        rw [hx, Function.update_self]; exact hs
      rw [List.filter_cons_of_pos (by simpa using hnew),
        List.filter_cons_of_neg (by simpa using hold), List.filter_cons_of_pos (by simpa using hx)]
      exact (ih.cons x).trans List.perm_middle.symm
    · have hsame : Function.update state p s x.parent = state x.parent :=
        Function.update_of_ne hx s state
      by_cases hold : Settled (state x.parent)
      · rw [List.filter_cons_of_pos (by simpa [hsame] using hold),
          List.filter_cons_of_pos (by simpa using hold),
          List.filter_cons_of_neg (by simpa using hx)]
        exact ih.cons x
      · rw [List.filter_cons_of_neg (by simpa [hsame] using hold),
          List.filter_cons_of_neg (by simpa using hold),
          List.filter_cons_of_neg (by simpa using hx)]
        exact ih

theorem settledEdges_congr {state state' : Nat → EventState}
    (h : ∀ e, Settled (state' e) ↔ Settled (state e)) :
    settledEdges S state' = settledEdges S state := by
  refine List.filter_congr ?_
  intro x _
  exact decide_eq_decide.mpr (h x.parent)

end Bookkeeping

section Steps
variable {S : EventSystem} {c : Config} {rest : List Call} {call : Call} {e : Nat}

theorem Inv.settled_of_mem (h : Inv S c) {x : Edge}
    (hx : x ∈ notifiedEdges c.history ++ stackedEdges c.stack) :
    x ∈ S.edges ∧ Settled (c.state x.parent) := by
  have hmem : x ∈ settledEdges S c.state := h.edges_perm.mem_iff.mp hx
  unfold settledEdges at hmem
  simpa using List.mem_filter.mp hmem

theorem Inv.settled_of_notified (h : Inv S c) {x : Edge} (hx : x ∈ notifiedEdges c.history) :
    x ∈ S.edges ∧ Settled (c.state x.parent) :=
  h.settled_of_mem (List.mem_append_left _ hx)

theorem Inv.settled_of_stacked (h : Inv S c) {x : Edge} {a : Bool}
    (hx : .completeDependency x a ∈ c.stack) : x ∈ S.edges ∧ Settled (c.state x.parent) := by
  refine h.settled_of_mem (List.mem_append_right _ ?_)
  exact List.mem_filterMap.mpr ⟨_, hx, rfl⟩

theorem Inv.rest_inLoop (h : Inv S c) (hs : c.stack = call :: rest) :
    ∀ d ∈ rest, d.InLoop := by
  intro d hd
  exact h.tail_inLoop d (by rw [hs]; exact hd)

/-- A call that is no notification returns without having changed an event. -/
theorem Inv.pop (h : Inv S c) (hs : c.stack = call :: rest) (hcall : call.edge? = none) :
    Inv S { c with stack := rest } where
  edges_perm := by
    have hperm := h.edges_perm
    rw [hs, stackedEdges_cons, hcall] at hperm
    exact hperm
  pending_eq := h.pending_eq
  dependents_eq := h.dependents_eq
  saw_iff := h.saw_iff
  ready := h.ready
  call_ok d hd := h.call_ok d (by rw [hs]; exact List.mem_cons_of_mem _ hd)
  tail_inLoop d hd := h.rest_inLoop hs d (List.mem_of_mem_tail hd)
  finished_iff := h.finished_iff
  aborted_iff := h.aborted_iff
  scheduled_ready := h.scheduled_ready

/-- A call begins: from the outside, or from the innermost call. -/
theorem Inv.push (h : Inv S c) (hloop : ∀ d ∈ c.stack, d.InLoop) (hcall : call.edge? = none)
    (hok : CallOk S c call) : Inv S { c with stack := call :: c.stack } where
  edges_perm := by
    show (notifiedEdges c.history ++ stackedEdges (call :: c.stack)).Perm _
    rw [stackedEdges_cons, hcall]
    exact h.edges_perm
  pending_eq := h.pending_eq
  dependents_eq := h.dependents_eq
  saw_iff := h.saw_iff
  ready := h.ready
  call_ok d hd := by
    rcases List.mem_cons.mp hd with rfl | hd
    · exact hok
    · exact h.call_ok d hd
  tail_inLoop := hloop
  finished_iff := h.finished_iff
  aborted_iff := h.aborted_iff
  scheduled_ready := h.scheduled_ready

theorem Inv.setTasks (h : Inv S c) (tasks : Nat → UInt32) :
    Inv S { c with tasksRemaining := tasks } :=
  ⟨h.edges_perm, h.pending_eq, h.dependents_eq, h.saw_iff, h.ready, h.call_ok, h.tail_inLoop,
    h.finished_iff, h.aborted_iff, h.scheduled_ready⟩

/-- Scheduling a pending event makes no event settled. -/
theorem schedule_eq_iff (state : Nat → EventState) (he : state e = .pending) {s : EventState}
    (hs : Settled s) (p : Nat) : Function.update state e .scheduled p = s ↔ state p = s := by
  by_cases hp : p = e
  · subst hp
    rw [Function.update_self, he]
    rcases hs with rfl | rfl <;> simp
  · rw [Function.update_of_ne hp]

theorem Inv.schedule (h : Inv S c) (hs : c.stack = .trySchedule e :: rest)
    (he : c.state e = .pending) (tasks : Nat → UInt32) :
    Inv S { c with
      state := Function.update c.state e .scheduled
      history := c.history ++ [.scheduled e]
      tasksRemaining := tasks
      stack := rest } := by
  have hfin (p : Nat) := schedule_eq_iff c.state he (Or.inl rfl : Settled .finished) p
  have habort (p : Nat) := schedule_eq_iff c.state he (Or.inr rfl : Settled .aborted) p
  have hsettled (p : Nat) :
      Settled (Function.update c.state e .scheduled p) ↔ Settled (c.state p) :=
    or_congr (hfin p) (habort p)
  have hdeps : c.DependenciesFinished S e := h.call_ok (.trySchedule e) (by simp [hs]) he
  exact {
    edges_perm := by
      have hperm := h.edges_perm
      rw [hs, stackedEdges_cons] at hperm
      simpa [settledEdges_congr hsettled, notifiedEdges_singleton, Occurrence.edge?,
        Call.edge?] using hperm
    pending_eq := by
      intro e'
      simpa [notifiedEdges_singleton, Occurrence.edge?] using h.pending_eq e'
    dependents_eq := fun p hp => h.dependents_eq p (by rwa [← hsettled])
    saw_iff := by
      intro e'
      simpa [habort] using h.saw_iff e'
    ready := by
      intro e' he' x hx hchild
      refine (hfin x.parent).mpr ?_
      by_cases heq : e' = e
      · exact hdeps x hx (hchild.trans heq)
      · have hold : c.state e' = .scheduled ∨ c.state e' = .finished := by simpa [heq] using he'
        exact h.ready e' hold x hx hchild
    call_ok := by
      intro d hd
      have hok := h.call_ok d (by rw [hs]; exact List.mem_cons_of_mem _ hd)
      have hloop := h.rest_inLoop hs d hd
      cases d with
      | completeDependency x a => exact hok.trans (habort x.parent).symm
      | clearDependents e' => exact (hsettled e').mpr hok
      | trySchedule _ => exact hloop.elim
      | finishEvent _ => exact hloop.elim
      | abort _ => exact hloop.elim
    tail_inLoop := fun d hd => h.rest_inLoop hs d (List.mem_of_mem_tail hd)
    finished_iff := by
      intro e'
      simpa [hfin] using h.finished_iff e'
    aborted_iff := by
      intro e'
      simpa [habort] using h.aborted_iff e'
    scheduled_ready := by
      refine h.scheduled_ready.append ?_
      intro e' heq x hx hchild
      cases heq
      exact (h.finished_iff x.parent).mpr (hdeps x hx hchild) }

/-- The store that settles an event, and what it tells the dependents. -/
def SettlesAs (s : EventState) (o : Occurrence) (a : Bool) : Prop :=
  s = .finished ∧ o = .finished e ∧ a = false ∨ s = .aborted ∧ o = .aborted e ∧ a = true

theorem Inv.settle (h : Inv S c) (hs : c.stack = call :: rest) (hcall : call.edge? = none)
    (he : ¬ Settled (c.state e)) {s : EventState} {o : Occurrence} {a : Bool}
    (hsettles : SettlesAs (e := e) s o a) (hdeps : s = .finished → c.DependenciesFinished S e) :
    Inv S (Config.notifyDependents { c with
      state := Function.update c.state e s
      history := c.history ++ [o] } e a rest) := by
  have hnew : Settled s := by rcases hsettles with ⟨rfl, _⟩ | ⟨rfl, _⟩ <;> simp [Settled]
  have hnone : o.edge? = none := by rcases hsettles with ⟨_, rfl, _⟩ | ⟨_, rfl, _⟩ <;> rfl
  have hkeep {p : Nat} (hp : Settled (c.state p)) :
      Function.update c.state e s p = c.state p := by
    refine Function.update_of_ne ?_ s c.state
    rintro rfl
    exact he hp
  have hnotified : notifiedEdges (c.history ++ [o]) = notifiedEdges c.history := by
    simp [notifiedEdges_singleton, hnone]
  exact {
    edges_perm := by
      have hperm := h.edges_perm
      rw [hs, stackedEdges_cons, hcall] at hperm
      show (notifiedEdges (c.history ++ [o]) ++ stackedEdges
        ((c.events.dependents e).map (fun d => .completeDependency ⟨d, e⟩ a) ++
          .clearDependents e :: rest)).Perm (settledEdges S (Function.update c.state e s))
      rw [hnotified, stackedEdges_append, stackedEdges_notify, stackedEdges_cons,
        h.dependents_eq e he, map_child_parent]
      refine List.Perm.trans ?_ (settledEdges_update he hnew).symm
      refine List.Perm.trans ?_ (hperm.append_right _)
      rw [List.append_assoc]
      exact List.perm_append_comm.append_left _
    pending_eq := by
      intro e'
      show _ = ((S.edges.countP _ : Nat) : Int) - (notifiedEdges (c.history ++ [o])).countP _
      rw [hnotified]
      exact h.pending_eq e'
    dependents_eq := by
      intro p hp
      refine h.dependents_eq p ?_
      intro hold
      exact hp (by rw [← hkeep hold] at hold; exact hold)
    saw_iff := by
      intro e'
      refine (h.saw_iff e').trans ?_
      show (∃ x ∈ notifiedEdges c.history, _) ↔ ∃ x ∈ notifiedEdges (c.history ++ [o]),
        x.child = e' ∧ Function.update c.state e s x.parent = .aborted
      rw [hnotified]
      refine exists_congr fun x => and_congr_right fun hx => ?_
      rw [hkeep (h.settled_of_notified hx).2]
    ready := by
      intro e' he' x hx hchild
      have hold : c.state x.parent = .finished := by
        by_cases heq : e' = e
        · subst heq
          refine hdeps ?_ x hx hchild
          have he'' : s = .scheduled ∨ s = .finished := by
            simpa [Config.notifyDependents] using he'
          rcases hsettles with ⟨rfl, _⟩ | ⟨rfl, _⟩
          · rfl
          · simp at he''
        · refine h.ready e' ?_ x hx hchild
          simpa [Config.notifyDependents, heq] using he'
      exact (hkeep (Or.inl hold)).trans hold
    call_ok := by
      intro d hd
      rcases List.mem_append.mp hd with hd | hd
      · obtain ⟨k, _, rfl⟩ := List.mem_map.mp hd
        show a = true ↔ Function.update c.state e s e = .aborted
        rw [Function.update_self]
        rcases hsettles with ⟨rfl, _, rfl⟩ | ⟨rfl, _, rfl⟩ <;> simp
      rcases List.mem_cons.mp hd with rfl | hd
      · show Settled (Function.update c.state e s e)
        rw [Function.update_self]
        exact hnew
      · have hstack : d ∈ c.stack := by rw [hs]; exact List.mem_cons_of_mem _ hd
        have hok := h.call_ok d hstack
        have hloop := h.rest_inLoop hs d hd
        cases d with
        | completeDependency x b =>
          show b = true ↔ Function.update c.state e s x.parent = .aborted
          rw [hkeep (h.settled_of_stacked hstack).2]
          exact hok
        | clearDependents e' =>
          show Settled (Function.update c.state e s e')
          rw [hkeep hok]
          exact hok
        | trySchedule _ => exact hloop.elim
        | finishEvent _ => exact hloop.elim
        | abort _ => exact hloop.elim
    tail_inLoop := by
      intro d hd
      rcases List.mem_append.mp (List.mem_of_mem_tail hd) with hd | hd
      · obtain ⟨k, _, rfl⟩ := List.mem_map.mp hd
        exact trivial
      rcases List.mem_cons.mp hd with rfl | hd
      · exact trivial
      · exact h.rest_inLoop hs d hd
    finished_iff := by
      intro e'
      by_cases heq : e' = e
      · subst heq
        have hold : Occurrence.finished e' ∉ c.history := by
          intro hmem
          exact he (Or.inl ((h.finished_iff e').mp hmem))
        rcases hsettles with ⟨rfl, rfl, _⟩ | ⟨rfl, rfl, _⟩ <;>
          simp [Config.notifyDependents, hold]
      · have hiff := h.finished_iff e'
        rcases hsettles with ⟨rfl, rfl, _⟩ | ⟨rfl, rfl, _⟩ <;>
          simp [Config.notifyDependents, heq, hiff]
    aborted_iff := by
      intro e'
      by_cases heq : e' = e
      · subst heq
        have hold : Occurrence.aborted e' ∉ c.history := by
          intro hmem
          exact he (Or.inr ((h.aborted_iff e').mp hmem))
        rcases hsettles with ⟨rfl, rfl, _⟩ | ⟨rfl, rfl, _⟩ <;>
          simp [Config.notifyDependents, hold]
      · have hiff := h.aborted_iff e'
        rcases hsettles with ⟨rfl, rfl, _⟩ | ⟨rfl, rfl, _⟩ <;>
          simp [Config.notifyDependents, heq, hiff]
    scheduled_ready := by
      refine h.scheduled_ready.append ?_
      rintro e' rfl
      rcases hsettles with ⟨_, hne, _⟩ | ⟨_, hne, _⟩ <;> cases hne }

/-- Settling a settled event the same way again changes nothing but the record. -/
theorem Inv.settle_again (h : Inv S c) (hs : c.stack = call :: rest) (hcall : call.edge? = none)
    {o : Occurrence} {a : Bool} (hsettles : SettlesAs (e := e) (c.state e) o a) :
    Inv S { c with
      state := Function.update c.state e (c.state e)
      history := c.history ++ [o]
      stack := rest } := by
  have hpop := h.pop hs hcall
  have hnone : o.edge? = none := by rcases hsettles with ⟨_, rfl, _⟩ | ⟨_, rfl, _⟩ <;> rfl
  have hnotified : notifiedEdges (c.history ++ [o]) = notifiedEdges c.history := by
    simp [notifiedEdges_singleton, hnone]
  rw [Function.update_eq_self]
  exact {
    edges_perm := by
      show (notifiedEdges (c.history ++ [o]) ++ stackedEdges rest).Perm _
      rw [hnotified]
      exact hpop.edges_perm
    pending_eq := by
      intro e'
      show _ = ((S.edges.countP _ : Nat) : Int) - (notifiedEdges (c.history ++ [o])).countP _
      rw [hnotified]
      exact h.pending_eq e'
    dependents_eq := h.dependents_eq
    saw_iff := by
      intro e'
      show _ ↔ ∃ x ∈ notifiedEdges (c.history ++ [o]), _
      rw [hnotified]
      exact h.saw_iff e'
    ready := h.ready
    call_ok := hpop.call_ok
    tail_inLoop := hpop.tail_inLoop
    finished_iff := by
      intro e'
      have hiff := h.finished_iff e'
      rcases hsettles with ⟨hstate, rfl, _⟩ | ⟨hstate, rfl, _⟩
      · by_cases heq : e' = e
        · subst heq; simp [hstate]
        · simp [heq, hiff]
      · simp [hiff]
    aborted_iff := by
      intro e'
      have hiff := h.aborted_iff e'
      rcases hsettles with ⟨hstate, rfl, _⟩ | ⟨hstate, rfl, _⟩
      · simp [hiff]
      · by_cases heq : e' = e
        · subst heq; simp [hstate]
        · simp [heq, hiff]
    scheduled_ready := by
      refine h.scheduled_ready.append ?_
      rintro e' rfl
      rcases hsettles with ⟨_, hne, _⟩ | ⟨_, hne, _⟩ <;> cases hne }

/-- One notification, up to the countdown. -/
theorem Inv.notify (h : Inv S c) {x : Edge} {a : Bool}
    (hs : c.stack = .completeDependency x a :: rest) :
    Inv S { c with
      sawAborted := Function.update c.sawAborted x.child (c.sawAborted x.child || a)
      events := { c.events with
        pendingDependencies := Function.update c.events.pendingDependencies x.child
          (c.events.pendingDependencies x.child - 1) }
      history := c.history ++ [.notified x]
      stack := rest } := by
  have hmem : .completeDependency x a ∈ c.stack := by rw [hs]; exact List.mem_cons_self
  have hflag : a = true ↔ c.state x.parent = .aborted := h.call_ok _ hmem
  exact {
    edges_perm := by
      have hperm := h.edges_perm
      rw [hs, stackedEdges_cons] at hperm
      show (notifiedEdges (c.history ++ [.notified x]) ++ stackedEdges rest).Perm _
      rw [notifiedEdges_append, List.append_assoc]
      exact hperm
    pending_eq := by
      intro e'
      have hpending := h.pending_eq e'
      by_cases heq : e' = x.child
      · subst heq
        simp [notifiedEdges_singleton, Occurrence.edge?, hpending]
        omega
      · simp [notifiedEdges_singleton, Occurrence.edge?, hpending, heq, Ne.symm heq]
    dependents_eq := h.dependents_eq
    saw_iff := by
      intro e'
      have hsaw := h.saw_iff e'
      show Function.update c.sawAborted x.child (c.sawAborted x.child || a) e' = true ↔
        ∃ y ∈ notifiedEdges (c.history ++ [.notified x]),
          y.child = e' ∧ c.state y.parent = .aborted
      rw [notifiedEdges_append]
      show _ ↔ ∃ y ∈ notifiedEdges c.history ++ [x], _
      by_cases heq : e' = x.child
      · subst heq
        rw [Function.update_self, Bool.or_eq_true, hsaw, hflag]
        constructor
        · rintro (⟨y, hy, hrest⟩ | haborted)
          · exact ⟨y, List.mem_append_left _ hy, hrest⟩
          · exact ⟨x, by simp, rfl, haborted⟩
        · rintro ⟨y, hy, hchild, haborted⟩
          rcases List.mem_append.mp hy with hy | hy
          · exact Or.inl ⟨y, hy, hchild, haborted⟩
          · obtain rfl := List.mem_singleton.mp hy
            exact Or.inr haborted
      · rw [Function.update_of_ne heq, hsaw]
        refine exists_congr fun y => ?_
        constructor
        · rintro ⟨hy, hrest⟩
          exact ⟨List.mem_append_left _ hy, hrest⟩
        · rintro ⟨hy, hchild, haborted⟩
          rcases List.mem_append.mp hy with hy | hy
          · exact ⟨hy, hchild, haborted⟩
          · obtain rfl := List.mem_singleton.mp hy
            exact absurd hchild.symm heq
    ready := h.ready
    call_ok := fun d hd => h.call_ok d (by rw [hs]; exact List.mem_cons_of_mem _ hd)
    tail_inLoop := fun d hd => h.rest_inLoop hs d (List.mem_of_mem_tail hd)
    finished_iff := by
      intro e'
      simpa using h.finished_iff e'
    aborted_iff := by
      intro e'
      simpa using h.aborted_iff e'
    scheduled_ready := by
      refine h.scheduled_ready.append ?_
      intro e' heq
      cases heq }

/-- A pending count of zero: every dependency was notified. -/
theorem Inv.all_notified (h : Inv S c) (hzero : c.events.pendingDependencies e = 0) :
    ∀ x ∈ S.edges, x.child = e → x ∈ notifiedEdges c.history := by
  intro x hx hchild
  have hpending := h.pending_eq e
  have hcount := h.edges_perm.countP_eq fun y => decide (y.child = e)
  rw [List.countP_append] at hcount
  have hall := List.countP_eq_countP_filter_add S.edges (fun y => decide (y.child = e))
    fun y => decide (Settled (c.state y.parent))
  have hsettledCount : (settledEdges S c.state).countP (fun y => decide (y.child = e)) =
      (S.edges.filter fun y => Settled (c.state y.parent)).countP
        (fun y => decide (y.child = e)) := rfl
  by_cases hsettled : Settled (c.state x.parent)
  · have hmem : x ∈ settledEdges S c.state :=
      List.mem_filter.mpr ⟨hx, by simpa using hsettled⟩
    rcases List.mem_append.mp (h.edges_perm.mem_iff.mpr hmem) with hmem | hmem
    · exact hmem
    · have hpos : 0 < (stackedEdges c.stack).countP (fun y => decide (y.child = e)) :=
        List.countP_pos_iff.mpr ⟨x, hmem, by simpa using hchild⟩
      omega
  · have hpos : 0 < (S.edges.filter fun y => !decide (Settled (c.state y.parent))).countP
        (fun y => decide (y.child = e)) :=
      List.countP_pos_iff.mpr
        ⟨x, List.mem_filter.mpr ⟨hx, by simpa using hsettled⟩, by simpa using hchild⟩
    omega

theorem Inv.completeDependency (h : Inv S c) {x : Edge} {a : Bool}
    (hs : c.stack = .completeDependency x a :: rest) :
    Inv S (c.runCall S rest (.completeDependency x a)) := by
  have hnotify := h.notify hs
  unfold Config.runCall
  dsimp only
  split
  · exact hnotify
  rename_i hprev
  have hzero : c.events.pendingDependencies x.child - 1 = 0 := by omega
  have hall := hnotify.all_notified (e := x.child) (by simpa using hzero)
  split
  · -- one of the dependencies aborted
    rename_i hsaw
    refine hnotify.push (h.rest_inLoop hs) rfl ?_
    intro hfinished
    obtain ⟨y, hy, hchild, haborted⟩ := (hnotify.saw_iff x.child).mp hsaw
    have hyfin := hnotify.ready x.child (Or.inr hfinished) y (hnotify.settled_of_notified hy).1
      hchild
    rw [hyfin] at haborted
    cases haborted
  · -- none of them did, and all of them are settled
    rename_i hsaw
    refine hnotify.push (h.rest_inLoop hs) rfl ?_
    intro _ y hy hchild
    have hmem := hall y hy hchild
    rcases (hnotify.settled_of_notified hmem).2 with hfin | habort
    · exact hfin
    · exact absurd ((hnotify.saw_iff x.child).mpr ⟨y, hmem, hchild, habort⟩) hsaw

theorem Inv.clearDependents (h : Inv S c) (hs : c.stack = .clearDependents e :: rest) :
    Inv S (c.runCall S rest (.clearDependents e)) := by
  have hpop := h.pop hs rfl
  have hsettled : Settled (c.state e) := h.call_ok (.clearDependents e) (by simp [hs])
  refine ⟨hpop.edges_perm, hpop.pending_eq, ?_, hpop.saw_iff, hpop.ready, hpop.call_ok,
    hpop.tail_inLoop, hpop.finished_iff, hpop.aborted_iff, hpop.scheduled_ready⟩
  intro p hp
  have hne : p ≠ e := by rintro rfl; exact hp hsettled
  show Function.update c.events.dependents e [] p = _
  rw [Function.update_of_ne hne]
  exact h.dependents_eq p hp

theorem Inv.runCall (h : Inv S c) (hs : c.stack = call :: rest) :
    Inv S (c.runCall S rest call) := by
  cases call with
  | trySchedule e =>
    by_cases he : c.state e = .pending
    · simp only [Config.runCall, he, if_true]
      cases S.schedule e with
      | enqueuesTasks count => exact h.schedule hs he _
      | finishesAtOnce =>
        have hsched := h.schedule hs he (Function.update c.tasksRemaining e 0)
        refine hsched.push (h.rest_inLoop hs) rfl ⟨?_, ?_⟩
        · simp
        · exact hsched.ready e (Or.inl (by simp))
    · simp only [Config.runCall, he, if_false]
      exact h.pop hs rfl
  | finishEvent e =>
    obtain ⟨hnot, hdeps⟩ : CallOk S c (.finishEvent e) := h.call_ok _ (by simp [hs])
    simp only [Config.runCall, hnot, or_false]
    by_cases he : c.state e = .finished
    · simp only [he, if_true]
      have hagain := h.settle_again hs rfl (e := e) (o := .finished e) (Or.inl ⟨he, rfl, rfl⟩)
      rwa [he] at hagain
    · simp only [he, if_false]
      have hsettled : ¬ Settled (c.state e) := not_or.mpr ⟨he, hnot⟩
      exact h.settle hs rfl hsettled (Or.inl ⟨rfl, rfl, rfl⟩) fun _ => hdeps
  | abort e =>
    have hnot : c.state e ≠ .finished := h.call_ok (.abort e) (by simp [hs])
    simp only [Config.runCall]
    by_cases he : c.state e = .aborted
    · simp only [he, if_true]
      have hagain := h.settle_again hs rfl (e := e) (o := .aborted e) (Or.inr ⟨he, rfl, rfl⟩)
      rwa [he] at hagain
    · simp only [he, if_false]
      have hsettled : ¬ Settled (c.state e) := not_or.mpr ⟨hnot, he⟩
      exact h.settle hs rfl hsettled (Or.inr ⟨rfl, rfl, rfl⟩) fun hfin => by cases hfin
  | completeDependency x a => exact h.completeDependency hs
  | clearDependents e => exact h.clearDependents hs

theorem Inv.run (h : Inv S c) : Inv S (c.run S) := by
  unfold Config.run
  cases hs : c.stack with
  | nil => exact h
  | cons call rest => exact h.runCall hs

theorem Inv.invoke (h : Inv S c) (hcall : call.edge? = none) (hok : CallOk S c call) :
    Inv S (c.invoke call) := by
  unfold Config.invoke
  split
  · rename_i hs
    have hpush := h.push (by simp [hs]) hcall hok
    rwa [hs] at hpush
  · exact h

theorem Inv.step (h : Inv S c) {l : Label} (hl : c.Admits S l) : Inv S (c.step S l) := by
  cases l with
  | run => exact h.run
  | trySchedule e => exact h.invoke rfl hl
  | finishTask e => exact h.setTasks _
  | finishEvent e => exact h.invoke rfl hl
  | abort e => exact h.invoke rfl hl

theorem inv_initial : Inv S (Config.initial S) where
  edges_perm := by
    have hnone : settledEdges S (Config.initial S).state = [] :=
      List.filter_eq_nil_iff.mpr (by simp [Config.initial, Settled])
    rw [hnone]
    exact .refl _
  pending_eq e := by
    have hcount := EventScheduler.pendingDependencies_foldl S.edges ⟨fun _ => 0, fun _ => []⟩ e
    simp only [Config.initial, hcount]
    simp [notifiedEdges]
  dependents_eq p _ := by
    have hdeps := EventScheduler.dependents_foldl S.edges ⟨fun _ => 0, fun _ => []⟩ p
    simp [Config.initial, hdeps]
  saw_iff e := by simp [Config.initial, notifiedEdges]
  ready e he := by simp [Config.initial] at he
  call_ok d hd := by simp [Config.initial] at hd
  tail_inLoop d hd := by simp [Config.initial] at hd
  finished_iff e := by simp [Config.initial]
  aborted_iff e := by simp [Config.initial]
  scheduled_ready pre o post heq := by simp [Config.initial] at heq

theorem inv_of_reachable (hr : (admittedSystem S).Reachable c) : Inv S c := by
  refine hr.invariant ?_ ?_
  · rintro _ rfl
    exact inv_initial
  · rintro s l _ h ⟨hl, rfl⟩
    exact h.step hl

end Steps

section Cascades
variable {S : EventSystem} {c : Config} {rest : List Call} {call : Call}

/-- How many more calls a pending call may lead to, its notifications apart. -/
def Call.weight : Call → Nat
  | .completeDependency _ _ => 4
  | .trySchedule _ => 3
  | .finishEvent _ => 2
  | .abort _ => 2
  | .clearDependents _ => 1

/-- Every edge that is not settled yet may still cost a notification. -/
def Config.work (S : EventSystem) (c : Config) : Nat :=
  4 * (S.edges.length - (settledEdges S c.state).length) + (c.stack.map Call.weight).sum

theorem settledEdges_length_le (state : Nat → EventState) :
    (settledEdges S state).length ≤ S.edges.length := List.length_filter_le ..

theorem work_pop (c' : Config) (hs : c.stack = call :: rest) (hstack : c'.stack = rest)
    (hsettled : settledEdges S c'.state = settledEdges S c.state) :
    c'.work S + call.weight = c.work S := by
  unfold Config.work
  rw [hs, hstack, hsettled, List.map_cons, List.sum_cons]
  omega

theorem work_replace (c' : Config) {call' : Call} (hs : c.stack = call :: rest)
    (hstack : c'.stack = call' :: rest)
    (hsettled : settledEdges S c'.state = settledEdges S c.state) :
    c'.work S + call.weight = c.work S + call'.weight := by
  unfold Config.work
  rw [hs, hstack, hsettled, List.map_cons, List.sum_cons, List.map_cons, List.sum_cons]
  omega

theorem weight_notify (children : List Nat) (p : Nat) (a : Bool) :
    ((children.map fun d => Call.completeDependency ⟨d, p⟩ a).map Call.weight).sum =
      4 * children.length := by
  induction children with
  | nil => rfl
  | cons d ds ih =>
    rw [List.map_cons, List.map_cons, List.sum_cons, ih, List.length_cons]
    show 4 + _ = _
    omega

/-- Settling an event pays for its notifications with its edges. -/
theorem Inv.work_settle (h : Inv S c) {e : Nat} (hs : c.stack = call :: rest)
    (hweight : call.weight = 2) (he : ¬ Settled (c.state e)) {s : EventState} (hnew : Settled s)
    (o : Occurrence) (a : Bool) :
    (Config.notifyDependents { c with
      state := Function.update c.state e s
      history := c.history ++ [o] } e a rest).work S < c.work S := by
  have hlength := (settledEdges_update (S := S) he hnew).length_eq
  have hle := settledEdges_length_le (S := S) (Function.update c.state e s)
  rw [List.length_append] at hlength
  unfold Config.work Config.notifyDependents
  dsimp only
  rw [hs, List.map_append, List.sum_append, weight_notify, List.map_cons, List.sum_cons,
    List.map_cons, List.sum_cons, h.dependents_eq e he, List.length_map, hweight]
  show _ + (_ + (1 + _)) < _
  omega

theorem Inv.work_runCall (h : Inv S c) (hs : c.stack = call :: rest) :
    (c.runCall S rest call).work S < c.work S := by
  cases call with
  | trySchedule e =>
    by_cases he : c.state e = .pending
    · have hsettled : settledEdges S (Function.update c.state e .scheduled) =
          settledEdges S c.state :=
        settledEdges_congr fun p =>
          or_congr (schedule_eq_iff _ he (Or.inl rfl) p) (schedule_eq_iff _ he (Or.inr rfl) p)
      simp only [Config.runCall, he, if_true]
      cases S.schedule e with
      | enqueuesTasks count =>
        have hwork := work_pop (S := S) ({ c with
          state := Function.update c.state e .scheduled
          history := c.history ++ [.scheduled e]
          tasksRemaining := Function.update c.tasksRemaining e count
          stack := rest }) hs rfl hsettled
        simp only [Call.weight] at hwork
        dsimp only
        omega
      | finishesAtOnce =>
        have hwork := work_replace (S := S) ({ c with
          state := Function.update c.state e .scheduled
          history := c.history ++ [.scheduled e]
          tasksRemaining := Function.update c.tasksRemaining e 0
          stack := .finishEvent e :: rest }) hs rfl hsettled
        simp only [Call.weight] at hwork
        dsimp only
        omega
    · simp only [Config.runCall, he, if_false]
      have hwork := work_pop (S := S) ({ c with stack := rest }) hs rfl rfl
      simp only [Call.weight] at hwork
      omega
  | finishEvent e =>
    obtain ⟨hnot, -⟩ : CallOk S c (.finishEvent e) := h.call_ok _ (by simp [hs])
    simp only [Config.runCall, hnot, or_false]
    by_cases he : c.state e = .finished
    · simp only [he, if_true]
      have hsame : Function.update c.state e .finished = c.state := by
        rw [← he, Function.update_eq_self]
      have hwork := work_pop (S := S) ({ c with
        state := Function.update c.state e .finished
        history := c.history ++ [.finished e]
        stack := rest }) hs rfl (by rw [hsame])
      simp only [Call.weight] at hwork
      omega
    · simp only [he, if_false]
      exact h.work_settle hs rfl (not_or.mpr ⟨he, hnot⟩) (Or.inl rfl) _ _
  | abort e =>
    have hnot : c.state e ≠ .finished := h.call_ok (.abort e) (by simp [hs])
    simp only [Config.runCall]
    by_cases he : c.state e = .aborted
    · simp only [he, if_true]
      have hsame : Function.update c.state e .aborted = c.state := by
        rw [← he, Function.update_eq_self]
      have hwork := work_pop (S := S) ({ c with
        state := Function.update c.state e .aborted
        history := c.history ++ [.aborted e]
        stack := rest }) hs rfl (by rw [hsame])
      simp only [Call.weight] at hwork
      omega
    · simp only [he, if_false]
      exact h.work_settle hs rfl (not_or.mpr ⟨hnot, he⟩) (Or.inr rfl) _ _
  | completeDependency x a =>
    have hweight : ∀ c' : Config, c'.state = c.state →
        (c'.stack = rest ∨ c'.stack = .abort x.child :: rest ∨
          c'.stack = .trySchedule x.child :: rest) → c'.work S < c.work S := by
      rintro c' hstate (hstack | hstack | hstack)
      · have hwork := work_pop (S := S) c' hs hstack (by rw [hstate])
        simp only [Call.weight] at hwork
        omega
      · have hwork := work_replace (S := S) c' hs hstack (by rw [hstate])
        simp only [Call.weight] at hwork
        omega
      · have hwork := work_replace (S := S) c' hs hstack (by rw [hstate])
        simp only [Call.weight] at hwork
        omega
    unfold Config.runCall
    dsimp only
    split
    · exact hweight _ rfl (Or.inl rfl)
    split
    · exact hweight _ rfl (Or.inr (Or.inl rfl))
    · exact hweight _ rfl (Or.inr (Or.inr rfl))
  | clearDependents e =>
    have hwork := work_pop (S := S) (c.runCall S rest (.clearDependents e)) hs rfl rfl
    simp only [Call.weight] at hwork
    omega

/-- Every cascade of calls returns. -/
theorem Inv.returns (h : Inv S c) : ∃ n, ((Config.run S)^[n] c).stack = [] := by
  induction hw : c.work S using Nat.strong_induction_on generalizing c with
  | _ work ih =>
    cases hs : c.stack with
    | nil => exact ⟨0, hs⟩
    | cons call rest =>
      have hrun : c.run S = c.runCall S rest call := by simp [Config.run, hs]
      have hlt : (c.run S).work S < work := by
        rw [hrun, ← hw]
        exact h.work_runCall hs
      obtain ⟨n, hn⟩ := ih _ hlt h.run rfl
      exact ⟨n + 1, hn⟩

end Cascades

section Lifecycle
variable {S : EventSystem} {c : Config}

/-- An event that was ever scheduled has finished dependencies, all the way up. -/
theorem Inv.upstream_finished (h : Inv S c) {e p : Nat} (he : .scheduled e ∈ c.history)
    (hep : Relation.TransGen S.DependsOn e p) : c.state p = .finished := by
  induction hep with
  | single hdep =>
    obtain ⟨pre, post, heq⟩ := List.append_of_mem he
    have hfin := h.scheduled_ready pre _ post heq e rfl _ hdep rfl
    refine (h.finished_iff _).mp ?_
    rw [heq]
    exact List.mem_append_left _ hfin
  | tail _ hdep ih => exact h.ready _ (Or.inr ih) _ hdep rfl

theorem Inv.count_notified (h : Inv S c) (x : Edge) :
    c.history.count (.notified x) + (stackedEdges c.stack).count x =
      (settledEdges S c.state).count x := by
  rw [← count_notifiedEdges, ← List.count_append]
  exact h.edges_perm.count_eq x

theorem Inv.lifecycle (h : Inv S c) : Lifecycle S c where
  scheduled_ready pre e post heq := h.scheduled_ready pre _ post heq e rfl
  notified_settled x hx := (h.settled_of_notified (mem_notifiedEdges.mpr hx)).2
  notified_le x := by
    have hcount := h.count_notified x
    have hle : (settledEdges S c.state).count x ≤ S.edges.count x :=
      List.filter_sublist.count_le x
    omega
  notified_once hstack x hx := by
    have hcount := h.count_notified x
    have hsettled : (settledEdges S c.state).count x = S.edges.count x :=
      List.count_filter (by simpa using hx)
    simp only [hstack, stackedEdges, List.filterMap_nil, List.count_nil] at hcount
    omega
  finished_absorbing e := (h.finished_iff e).mp
  aborted_absorbing e := (h.aborted_iff e).mp
  downstream e p hp hep he := by
    have haborted := (h.aborted_iff p).mp hp
    rw [h.upstream_finished he hep] at haborted
    cases haborted

/-- **Lifecycle of events.** In a run all of whose outside calls come when the
states of the events are ready for them, every event obeys its lifecycle, and
every cascade of calls returns. -/
theorem admitted_lifecycle (hr : (admittedSystem S).Reachable c) :
    Lifecycle S c ∧ ∃ n, ((Config.run S)^[n] c).stack = [] :=
  ⟨(inv_of_reachable hr).lifecycle, (inv_of_reachable hr).returns⟩

/-- Two events, the second waiting for the first. -/
def twoEvents : EventSystem where
  edges := [⟨1, 0⟩]
  schedule _ := .enqueuesTasks 1

/-- The first event runs its task and finishes, and the second is scheduled. -/
def twoEventsRun : Config :=
  [.trySchedule 0, .run, .finishTask 0, .finishEvent 0, .run, .run, .run, .run].foldl
    (Config.step twoEvents) (Config.initial twoEvents)

theorem admitted_lifecycle_twoEvents : Lifecycle twoEvents twoEventsRun ∧
    ∃ n, ((Config.run twoEvents)^[n] twoEventsRun).stack = [] :=
  admitted_lifecycle (TransitionSystem.reachable_restrict_foldl _ (by decide)
    (.initial rfl))

/-- An event is aborted and then finished: the exchange in `FinishEvent`
overwrites ABORTED before it looks at the previous state. -/
theorem lifecycle_violated :
    ¬ ∀ c, (system twoEvents).Reachable c → Lifecycle twoEvents c := by
  intro hall
  have hreach : (system twoEvents).Reachable
      ([.abort 0, .run, .run, .run, .run, .run, .finishEvent 0, .run].foldl
        (Config.step twoEvents) (Config.initial twoEvents)) :=
    TransitionSystem.reachable_foldl _ (.initial rfl)
  have habsorbing := (hall _ hreach).aborted_absorbing 0 (by decide)
  revert habsorbing
  decide

end Lifecycle

end EventLifecycle
end PgYaap
