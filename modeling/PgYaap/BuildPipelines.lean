import Mathlib

/-! # Slicing an operator tree into pipelines

`MetaPipeline::Build` walks the tree of physical operators from the output sink
down and cuts it at pipeline breakers. A breaker is the source of the pipeline
above it and the sink of the one below; a join is a streaming operator of the
pipeline of its probe side and the sink of the pipeline of its build side; a
delim scan owns the aggregate that fills its state.

The C++ code holds a reference to the current pipeline and pushes new pipelines
onto the shared list; here a reference is a position of that list. Pipeline ids
are 16 bits wide. -/
namespace PgYaap
namespace BuildPipelines

/-- The operators with one child. -/
inductive UnaryType
  | filter
  | projection
  | hashAggregate
  | perfectHashAggregate
  | order
  | topN
  | output
deriving DecidableEq

/-- The operators with two children, probe side and build side. -/
inductive BinaryType
  | hashJoin
  | crossProduct
deriving DecidableEq

/-- A tree of physical operators. The number stands for the address of the
operator. A delim scan either reads a state that somebody else fills, or owns
the hash aggregate `sink` over `child` that fills it. -/
inductive PhysicalOperator
  | seqScan (id : Nat)
  | delimScan (id : Nat)
  | producingDelimScan (id sink : Nat) (child : PhysicalOperator)
  | unary (type : UnaryType) (id : Nat) (child : PhysicalOperator)
  | binary (type : BinaryType) (id : Nat) (probe build : PhysicalOperator)
deriving DecidableEq

def UnaryType.isSink : UnaryType → Bool
  | .filter | .projection => false
  | _ => true

def UnaryType.isPipelineBreaker : UnaryType → Bool
  | .filter | .projection | .output => false
  | _ => true

structure Pipeline where
  id : UInt16
  source : Option PhysicalOperator
  ops : List PhysicalOperator
  sink : Option PhysicalOperator
  dependsOn : List UInt16
deriving DecidableEq

structure MetaPipeline where
  pipelines : List Pipeline
  nextId : UInt16

namespace MetaPipeline

def update (m : MetaPipeline) (i : Nat) (f : Pipeline → Pipeline) : MetaPipeline :=
  { m with pipelines := m.pipelines.modify i f }

/-- `CreatePipeline`, with the position of the new pipeline. -/
def createPipeline (m : MetaPipeline) : Nat × MetaPipeline :=
  (m.pipelines.length,
    { pipelines := m.pipelines ++ [⟨m.nextId, none, [], none, []⟩]
      nextId := m.nextId + 1 })

def addOperator (m : MetaPipeline) (i : Nat) (op : PhysicalOperator) : MetaPipeline :=
  m.update i fun p => { p with ops := p.ops ++ [op] }

/-- `SetSource` keeps a source that is set already. -/
def setSource (m : MetaPipeline) (i : Nat) (op : PhysicalOperator) : MetaPipeline :=
  m.update i fun p => if p.source = none then { p with source := some op } else p

def setSink (m : MetaPipeline) (i : Nat) (op : PhysicalOperator) : MetaPipeline :=
  m.update i fun p => { p with sink := some op }

/-- `CreateChildPipeline`: the parent waits for the child. -/
def createChildPipeline (m : MetaPipeline) (parent : Nat) (sink : PhysicalOperator) :
    Nat × MetaPipeline :=
  let (child, m') := m.createPipeline
  let m' := m'.update child fun p => { p with source := some sink }
  (child, m'.update parent fun p => { p with dependsOn := p.dependsOn ++ [m.nextId] })

/-- `producer.source = nullptr`. -/
def clearSource (m : MetaPipeline) (i : Nat) : MetaPipeline :=
  m.update i fun p => { p with source := none }

/-- The three statements every breaker begins its producer pipeline with. -/
def openProducer (m : MetaPipeline) (current : Nat) (sink : PhysicalOperator) :
    Nat × MetaPipeline :=
  let (producer, m) := m.createChildPipeline current sink
  (producer, (m.setSink producer sink).clearSource producer)

end MetaPipeline

/-- `BuildPipelines`: the walker of `PhysicalOperator` for the operators with at
most one child, and the overriding ones of the joins and of the delim scan. -/
def PhysicalOperator.buildPipelines :
    PhysicalOperator → (current : Nat) → MetaPipeline → MetaPipeline
  | .seqScan id, current, m => m.setSource current (.seqScan id)
  | .delimScan id, current, m => m.setSource current (.delimScan id)
  | .producingDelimScan id sink child, current, m =>
    let m := m.setSource current (.producingDelimScan id sink child)
    let (producer, m) := m.openProducer current (.unary .hashAggregate sink child)
    child.buildPipelines producer m
  | .unary type id child, current, m =>
    if type.isSink && !type.isPipelineBreaker then
      child.buildPipelines current (m.setSink current (.unary type id child))
    else if type.isPipelineBreaker then
      let m := m.setSource current (.unary type id child)
      let (producer, m) := m.openProducer current (.unary type id child)
      child.buildPipelines producer m
    else (child.buildPipelines current m).addOperator current (.unary type id child)
  | .binary type id probe build, current, m =>
    let (producer, m) := m.openProducer current (.binary type id probe build)
    let m := build.buildPipelines producer m
    (probe.buildPipelines current m).addOperator current (.binary type id probe build)

/-- `MetaPipeline::Build`. -/
def PhysicalOperator.build (root : PhysicalOperator) : List Pipeline :=
  let (top, m) := MetaPipeline.createPipeline ⟨[], 0⟩
  (root.buildPipelines top m).pipelines

/-! ## What the pipelines should be -/

/-- The operators of a tree, a delim scan before the aggregate it owns. -/
def PhysicalOperator.ids : PhysicalOperator → List Nat
  | .seqScan id => [id]
  | .delimScan id => [id]
  | .producingDelimScan id sink child => id :: sink :: child.ids
  | .unary _ id child => id :: child.ids
  | .binary _ id probe build => id :: (probe.ids ++ build.ids)

/-- No operator of the tree is an output sink. -/
def PhysicalOperator.NoOutput : PhysicalOperator → Prop
  | .seqScan _ => True
  | .delimScan _ => True
  | .producingDelimScan _ _ child => child.NoOutput
  | .unary type _ child => type ≠ .output ∧ child.NoOutput
  | .binary _ _ probe build => probe.NoOutput ∧ build.NoOutput

/-- The tree of a query: an output sink above operators that are none, each of
them an object of its own. -/
structure OperatorTree where
  output : Nat
  child : PhysicalOperator
  noOutput : child.NoOutput
  distinct : (output :: child.ids).Nodup

def OperatorTree.root (t : OperatorTree) : PhysicalOperator := .unary .output t.output t.child

/-- The operators whose role is to be a source: leaves, and breakers that the
operators above them read. -/
def PhysicalOperator.sources : PhysicalOperator → List PhysicalOperator
  | .seqScan id => [.seqScan id]
  | .delimScan id => [.delimScan id]
  | .producingDelimScan id sink child => .producingDelimScan id sink child :: child.sources
  | .unary type id child =>
    if type.isPipelineBreaker then .unary type id child :: child.sources else child.sources
  | .binary _ _ probe build => probe.sources ++ build.sources

/-- The operators whose role is to stream: filters, projections, and joins for
their probe side. -/
def PhysicalOperator.streaming : PhysicalOperator → List PhysicalOperator
  | .seqScan _ => []
  | .delimScan _ => []
  | .producingDelimScan _ _ child => child.streaming
  | .unary type id child =>
    if type.isSink then child.streaming else .unary type id child :: child.streaming
  | .binary type id probe build =>
    .binary type id probe build :: (probe.streaming ++ build.streaming)

/-- The operators whose role is to be a sink: the output sink, breakers, joins
for their build side, and the aggregates of delim scans. -/
def PhysicalOperator.sinks : PhysicalOperator → List PhysicalOperator
  | .seqScan _ => []
  | .delimScan _ => []
  | .producingDelimScan _ sink child => .unary .hashAggregate sink child :: child.sinks
  | .unary type id child =>
    if type.isSink then .unary type id child :: child.sinks else child.sinks
  | .binary type id probe build => .binary type id probe build :: (probe.sinks ++ build.sinks)

/-- `op` streams what `input` produces. -/
def Feeds (input op : PhysicalOperator) : Prop :=
  match op with
  | .unary _ _ child => child = input
  | .binary _ _ probe _ => probe = input
  | _ => False

/-- `sink` swallows what `input` produces. -/
def FeedsSink (input sink : PhysicalOperator) : Prop :=
  match sink with
  | .unary _ _ child => child = input
  | .binary _ _ _ build => build = input
  | _ => False

/-- The sinks whose state an operator of a pipeline reads. -/
def PhysicalOperator.statesRead : PhysicalOperator → List PhysicalOperator
  | .seqScan _ => []
  | .delimScan _ => []
  | .producingDelimScan _ sink child => [.unary .hashAggregate sink child]
  | .unary type id child => if type.isPipelineBreaker then [.unary type id child] else []
  | .binary type id probe build => [.binary type id probe build]

def Pipeline.operators (p : Pipeline) : List PhysicalOperator := p.source.toList ++ p.ops

/-- The dependencies between positions of the list, as the scheduler takes them. -/
def DependsOn (pipelines : List Pipeline) (i j : Nat) : Prop :=
  ∃ p d, pipelines[i]? = some p ∧ d ∈ p.dependsOn ∧ d.toNat = j

/-- **What `Build` owes a tree**, for the list of pipelines it returns. -/
structure WellBuilt (t : PhysicalOperator) (pipelines : List Pipeline) : Prop where
  /-- each pipeline has its source, its operators in the order of the tree, and its sink -/
  chain : ∀ p ∈ pipelines, ∃ source sink, p.source = some source ∧ p.sink = some sink ∧
    List.IsChain Feeds (source :: p.ops) ∧
    FeedsSink ((source :: p.ops).getLast (List.cons_ne_nil _ _)) sink
  /-- every operator is placed once for each of its roles -/
  sources_perm : (pipelines.filterMap Pipeline.source).Perm t.sources
  streaming_perm : (pipelines.flatMap Pipeline.ops).Perm t.streaming
  sinks_perm : (pipelines.filterMap Pipeline.sink).Perm t.sinks
  /-- the dependencies are among the pipelines, and acyclic -/
  depends_lt : ∀ i j, DependsOn pipelines i j → j < pipelines.length
  acyclic : ∀ i, ¬ Relation.TransGen (DependsOn pipelines) i i
  /-- who reads the state of a sink depends on the pipeline that fills it -/
  reads_depend : ∀ p ∈ pipelines, ∀ op ∈ p.operators, ∀ sink ∈ op.statesRead,
    ∀ j q, pipelines[j]? = some q → q.sink = some sink → ∃ d ∈ p.dependsOn, d.toNat = j

/-! ## The pipelines of a subtree -/

/-- What a subtree contributes: the beginning of the current pipeline, and the
pipelines created below it. -/
structure Segment where
  source : PhysicalOperator
  ops : List PhysicalOperator
  dependsOn : List UInt16
  closed : List Pipeline

namespace Segment

/-- The current pipeline with the contribution. -/
def extend (s : Segment) (p : Pipeline) : Pipeline :=
  { p with
    source := some s.source
    ops := p.ops ++ s.ops
    dependsOn := p.dependsOn ++ s.dependsOn }

/-- The contribution as a pipeline of its own. -/
def close (s : Segment) (id : UInt16) (sink : PhysicalOperator) : Pipeline :=
  ⟨id, some s.source, s.ops, some sink, s.dependsOn⟩

/-- The pipelines of a breaker: the one that sinks into it, and those below. -/
def below (s : Segment) (n : Nat) (sink : PhysicalOperator) : List Pipeline :=
  s.close (UInt16.ofNat n) sink :: s.closed

end Segment

/-- The contribution of a subtree when `n` pipelines exist already. -/
def PhysicalOperator.segment : PhysicalOperator → Nat → Segment
  | .seqScan id, _ => ⟨.seqScan id, [], [], []⟩
  | .delimScan id, _ => ⟨.delimScan id, [], [], []⟩
  | .producingDelimScan id sink child, n =>
    let below := (child.segment (n + 1)).below n (.unary .hashAggregate sink child)
    ⟨.producingDelimScan id sink child, [], [UInt16.ofNat n], below⟩
  | .unary type id child, n =>
    if type.isPipelineBreaker then
      let below := (child.segment (n + 1)).below n (.unary type id child)
      ⟨.unary type id child, [], [UInt16.ofNat n], below⟩
    else
      let s := child.segment n
      { s with ops := s.ops ++ [.unary type id child] }
  | .binary type id probe build, n =>
    let below := (build.segment (n + 1)).below n (.binary type id probe build)
    let s := probe.segment (n + below.length)
    ⟨s.source, s.ops ++ [.binary type id probe build], UInt16.ofNat n :: s.dependsOn,
      below ++ s.closed⟩

namespace MetaPipeline
variable (before : List Pipeline) (p : Pipeline) (after : List Pipeline)

/-- The builder at work on one pipeline, between older and newer ones. -/
def around : MetaPipeline :=
  ⟨before ++ p :: after, UInt16.ofNat (before ++ p :: after).length⟩

/-- The same list, seen from another pipeline. -/
theorem around_last (c : Pipeline) :
    around (before ++ p :: after) c [] = around before p (after ++ [c]) := by
  unfold around
  rw [List.append_assoc, List.cons_append]

/-- The last pipeline and those appended after it, seen from another pipeline. -/
theorem around_cons_last (c : Pipeline) (more : List Pipeline) :
    around (before ++ p :: after) c ([] ++ more) = around before p (after ++ c :: more) := by
  unfold around
  rw [List.append_assoc, List.cons_append, List.nil_append]

theorem modify_middle (f : Pipeline → Pipeline) :
    (before ++ p :: after).modify before.length f = before ++ f p :: after := by
  induction before with
  | nil => rfl
  | cons q qs ih =>
    show (q :: (qs ++ p :: after)).modify (qs.length + 1) f = q :: (qs ++ f p :: after)
    rw [List.modify_succ_cons, ih]

theorem update_around (f : Pipeline → Pipeline) :
    (around before p after).update before.length f = around before (f p) after := by
  unfold around update
  rw [modify_middle]
  simp

theorem addOperator_around (op : PhysicalOperator) :
    (around before p after).addOperator before.length op =
      around before { p with ops := p.ops ++ [op] } after :=
  update_around ..

theorem setSink_around (op : PhysicalOperator) :
    (around before p after).setSink before.length op =
      around before { p with sink := some op } after :=
  update_around ..

theorem clearSource_around :
    (around before p after).clearSource before.length =
      around before { p with source := none } after :=
  update_around ..

theorem setSource_around (hp : p.source = none) (op : PhysicalOperator) :
    (around before p after).setSource before.length op =
      around before { p with source := some op } after := by
  unfold setSource
  rw [update_around, if_pos hp]

theorem createPipeline_around :
    (around before p after).createPipeline =
      ((before ++ p :: after).length, around (before ++ p :: after)
        ⟨UInt16.ofNat (before ++ p :: after).length, none, [], none, []⟩ []) := by
  unfold createPipeline around
  have hlength (c : Pipeline) :
      (before ++ p :: after ++ [c]).length = (before ++ p :: after).length + 1 := by
    rw [List.length_append]
    rfl
  rw [hlength, UInt16.ofNat_add]
  rfl

/-- A producer pipeline becomes the last of the list, and the current one waits for it. -/
theorem openProducer_around {n : Nat} (hn : n = (before ++ p :: after).length)
    (sink : PhysicalOperator) :
    (around before p after).openProducer before.length sink =
      (n, around (before ++ { p with dependsOn := p.dependsOn ++ [UInt16.ofNat n] } :: after)
        ⟨UInt16.ofNat n, none, [], some sink, []⟩ []) := by
  subst hn
  have hlength (p' : Pipeline) :
      (before ++ p :: after).length = (before ++ p' :: after).length := by
    simp
  unfold openProducer createChildPipeline
  rw [createPipeline_around]
  dsimp only
  rw [update_around, around_last, update_around, ← around_last]
  refine Prod.ext rfl ?_
  dsimp only
  rw [hlength, setSink_around, clearSource_around]
  simp [around]

end MetaPipeline

/-- **What the walker does.** The current pipeline gets the contribution of the
subtree, and the pipelines below are appended. -/
theorem PhysicalOperator.buildPipelines_around (t : PhysicalOperator) (ht : t.NoOutput)
    {before after : List Pipeline} {p : Pipeline} (hp : p.source = none) {current n : Nat}
    (hcurrent : current = before.length) (hn : n = (before ++ p :: after).length) :
    t.buildPipelines current (.around before p after) =
      .around before ((t.segment n).extend p) (after ++ (t.segment n).closed) := by
  induction t generalizing before after p current n with
  | seqScan id =>
    subst hcurrent
    show MetaPipeline.setSource _ _ _ = _
    rw [MetaPipeline.setSource_around _ _ _ hp]
    simp [segment, Segment.extend]
  | delimScan id =>
    subst hcurrent
    show MetaPipeline.setSource _ _ _ = _
    rw [MetaPipeline.setSource_around _ _ _ hp]
    simp [segment, Segment.extend]
  | producingDelimScan id sink child ih =>
    subst hcurrent
    simp only [buildPipelines]
    rw [MetaPipeline.setSource_around _ _ _ hp, MetaPipeline.openProducer_around (n := n)]
    · rw [ih ht (n := n + 1) rfl (by simp [hn]) (by simp [hn, Nat.add_assoc]),
        MetaPipeline.around_cons_last]
      simp [segment, Segment.extend, Segment.below, Segment.close]
    · simp [hn]
  | unary type id child ih =>
    have hnot : (type.isSink && !type.isPipelineBreaker) = false := by
      cases type <;> first | rfl | exact absurd rfl ht.1
    simp only [buildPipelines, hnot, Bool.false_eq_true, if_false]
    cases hbreaker : type.isPipelineBreaker with
    | true =>
      subst hcurrent
      simp only [if_true]
      rw [MetaPipeline.setSource_around _ _ _ hp, MetaPipeline.openProducer_around (n := n)]
      · rw [ih ht.2 (n := n + 1) rfl (by simp [hn]) (by simp [hn, Nat.add_assoc]),
          MetaPipeline.around_cons_last]
        simp [segment, hbreaker, Segment.extend, Segment.below, Segment.close]
      · simp [hn]
    | false =>
      rw [if_neg (by simp), ih ht.2 hp hcurrent hn, hcurrent, MetaPipeline.addOperator_around]
      simp [segment, hbreaker, Segment.extend]
  | binary type id probe build ihp ihb =>
    simp only [buildPipelines]
    rw [hcurrent, MetaPipeline.openProducer_around (n := n) _ _ _ hn]
    dsimp only
    rw [ihb ht.2 (n := n + 1) rfl (by simp [hn]) (by simp [hn, Nat.add_assoc]),
      MetaPipeline.around_cons_last,
      ihp ht.1 (n := n + (((build.segment (n + 1)).below n (.binary type id probe build)).length))
        (by exact hp) rfl (by simp [hn, Segment.below]; omega), MetaPipeline.addOperator_around]
    simp [segment, Segment.extend, Segment.below, Segment.close]

/-! ## What holds of a subtree's pipelines -/

section Placement

/-- A pipeline streams from its source to its sink. -/
def Streams (source : PhysicalOperator) (ops : List PhysicalOperator) (last : PhysicalOperator) :
    Prop :=
  List.IsChain Feeds (source :: ops) ∧
    (source :: ops).getLast (List.cons_ne_nil _ _) = last

/-- The pipelines `L`, the first of which has position `n`, are complete. -/
structure Placed (n : Nat) (L : List Pipeline) : Prop where
  chain : ∀ p ∈ L, ∃ source sink last, p.source = some source ∧ p.sink = some sink ∧
    Streams source p.ops last ∧ FeedsSink last sink
  later : ∀ i p, L[i]? = some p → ∀ d ∈ p.dependsOn,
    ∃ k, n + i < k ∧ k < n + L.length ∧ d = UInt16.ofNat k
  reads : ∀ p ∈ L, ∀ op ∈ p.operators, ∀ sink ∈ op.statesRead,
    ∃ i q, L[i]? = some q ∧ q.sink = some sink ∧ UInt16.ofNat (n + i) ∈ p.dependsOn

/-- The contribution `s` of the subtree `t` to a current pipeline, with the
pipelines below from position `n` on. -/
structure Contributes (t : PhysicalOperator) (n : Nat) (s : Segment) : Prop where
  streams : Streams s.source s.ops t
  among : ∀ d ∈ s.dependsOn, ∃ k, n ≤ k ∧ k < n + s.closed.length ∧ d = UInt16.ofNat k
  reads : ∀ op ∈ s.source :: s.ops, ∀ sink ∈ op.statesRead,
    ∃ i q, s.closed[i]? = some q ∧ q.sink = some sink ∧ UInt16.ofNat (n + i) ∈ s.dependsOn
  closed : Placed n s.closed
  sources_perm : (s.source :: s.closed.filterMap Pipeline.source).Perm t.sources
  streaming_perm : (s.ops ++ s.closed.flatMap Pipeline.ops).Perm t.streaming
  sinks_perm : (s.closed.filterMap Pipeline.sink).Perm t.sinks

variable {t : PhysicalOperator} {n : Nat} {s : Segment}

theorem placed_nil (n : Nat) : Placed n [] :=
  ⟨by simp, by simp, by simp⟩

theorem Placed.append {L L' : List Pipeline} (h : Placed n L) (h' : Placed (n + L.length) L') :
    Placed n (L ++ L') where
  chain p hp := by
    rcases List.mem_append.mp hp with hp | hp
    · exact h.chain p hp
    · exact h'.chain p hp
  later i p hi d hd := by
    rw [List.getElem?_append] at hi
    rw [List.length_append]
    split at hi
    · obtain ⟨k, hk, hlt, rfl⟩ := h.later i p hi d hd
      exact ⟨k, hk, by omega, rfl⟩
    · obtain ⟨k, hk, hlt, rfl⟩ := h'.later _ p hi d hd
      exact ⟨k, by omega, by omega, rfl⟩
  reads p hp op hop sink hsink := by
    rcases List.mem_append.mp hp with hp | hp
    · obtain ⟨i, q, hi, hq, hd⟩ := h.reads p hp op hop sink hsink
      refine ⟨i, q, ?_, hq, hd⟩
      rw [List.getElem?_append_left (List.getElem?_eq_some_iff.mp hi).1]
      exact hi
    · obtain ⟨i, q, hi, hq, hd⟩ := h'.reads p hp op hop sink hsink
      refine ⟨L.length + i, q, ?_, hq, ?_⟩
      · rw [List.getElem?_append_right (Nat.le_add_right _ _), Nat.add_sub_cancel_left]
        exact hi
      · rw [← Nat.add_assoc]
        exact hd

/-- A contribution under a sink makes complete pipelines. -/
theorem Contributes.below (h : Contributes t (n + 1) s) {sink : PhysicalOperator}
    (hsink : FeedsSink t sink) : Placed n (s.below n sink) where
  chain p hp := by
    rcases List.mem_cons.mp hp with rfl | hp
    · exact ⟨s.source, sink, t, rfl, rfl, h.streams, hsink⟩
    · exact h.closed.chain p hp
  later i p hi d hd := by
    show ∃ k, n + i < k ∧ k < n + (s.closed.length + 1) ∧ _
    cases i with
    | zero =>
      obtain rfl : s.close (UInt16.ofNat n) sink = p := Option.some.inj hi
      obtain ⟨k, hk, hlt, rfl⟩ := h.among d hd
      exact ⟨k, by omega, by omega, rfl⟩
    | succ i =>
      obtain ⟨k, hk, hlt, rfl⟩ := h.closed.later i p hi d hd
      exact ⟨k, by omega, by omega, rfl⟩
  reads p hp op hop sink' hsink' := by
    rcases List.mem_cons.mp hp with rfl | hp
    · obtain ⟨i, q, hi, hq, hd⟩ := h.reads op hop sink' hsink'
      refine ⟨i + 1, q, hi, hq, ?_⟩
      rwa [show n + (i + 1) = n + 1 + i by omega]
    · obtain ⟨i, q, hi, hq, hd⟩ := h.closed.reads p hp op hop sink' hsink'
      refine ⟨i + 1, q, hi, hq, ?_⟩
      rwa [show n + (i + 1) = n + 1 + i by omega]

theorem below_length (s : Segment) (n : Nat) (sink : PhysicalOperator) :
    (s.below n sink).length = s.closed.length + 1 := rfl

/-- A leaf is the source of its pipeline and needs nothing below. -/
theorem contributes_leaf (hsources : t.sources = [t]) (hstreaming : t.streaming = [])
    (hsinks : t.sinks = []) (hreads : t.statesRead = []) : Contributes t n ⟨t, [], [], []⟩ where
  streams := ⟨List.isChain_singleton _, rfl⟩
  among d hd := by cases hd
  reads op hop sink hsink := by
    obtain rfl : op = t := by simpa using hop
    rw [hreads] at hsink
    cases hsink
  closed := placed_nil n
  sources_perm := by rw [hsources]; exact .refl _
  streaming_perm := by rw [hstreaming]; exact .refl _
  sinks_perm := by rw [hsinks]; exact .refl _

/-- An operator that reads the sink of a new pipeline is the source of its own. -/
theorem Contributes.breaker {child sink : PhysicalOperator} (h : Contributes child (n + 1) s)
    (hsink : FeedsSink child sink) (hsources : t.sources = t :: child.sources)
    (hstreaming : t.streaming = child.streaming) (hsinks : t.sinks = sink :: child.sinks)
    (hreads : t.statesRead = [sink]) :
    Contributes t n ⟨t, [], [UInt16.ofNat n], s.below n sink⟩ where
  streams := ⟨List.isChain_singleton _, rfl⟩
  among d hd := by
    obtain rfl : d = UInt16.ofNat n := by simpa using hd
    exact ⟨n, le_rfl, by simp [Segment.below], rfl⟩
  reads op hop sink' hsink' := by
    obtain rfl : op = t := by simpa using hop
    rw [hreads] at hsink'
    obtain rfl : sink' = sink := by simpa using hsink'
    exact ⟨0, _, rfl, rfl, by simp⟩
  closed := h.below hsink
  sources_perm := by
    rw [hsources]
    exact h.sources_perm.cons _
  streaming_perm := by
    rw [hstreaming]
    exact h.streaming_perm
  sinks_perm := by
    rw [hsinks]
    exact h.sinks_perm.cons _

theorem Streams.concat {source last op : PhysicalOperator} {ops : List PhysicalOperator}
    (h : Streams source ops last) (hop : Feeds last op) : Streams source (ops ++ [op]) op := by
  obtain ⟨hchain, rfl⟩ := h
  refine ⟨?_, ?_⟩
  · rw [← List.cons_append]
    refine List.isChain_append.mpr ⟨hchain, List.isChain_singleton _, ?_⟩
    intro x hx y hy
    obtain rfl : op = y := by simpa using hy
    rw [List.getLast?_eq_getLast_of_ne_nil (List.cons_ne_nil _ _)] at hx
    obtain rfl := Option.some.inj hx
    exact hop
  · simp

/-- A streaming operator goes to the end of its pipeline. -/
theorem Contributes.stream {child : PhysicalOperator} (h : Contributes child n s)
    (hfeeds : Feeds child t) (hsources : t.sources = child.sources)
    (hstreaming : t.streaming = t :: child.streaming) (hsinks : t.sinks = child.sinks)
    (hreads : t.statesRead = []) : Contributes t n { s with ops := s.ops ++ [t] } where
  streams := h.streams.concat hfeeds
  among := h.among
  reads op hop sink hsink := by
    rw [← List.cons_append] at hop
    rcases List.mem_append.mp hop with hop | hop
    · exact h.reads op hop sink hsink
    · obtain rfl : op = t := by simpa using hop
      rw [hreads] at hsink
      cases hsink
  closed := h.closed
  sources_perm := by
    rw [hsources]
    exact h.sources_perm
  streaming_perm := by
    rw [hstreaming, List.append_assoc]
    exact List.perm_middle.trans (h.streaming_perm.cons _)
  sinks_perm := by
    rw [hsinks]
    exact h.sinks_perm

/-- A join streams its probe side, and its build side sinks into it. -/
theorem Contributes.join {type : BinaryType} {id : Nat} {probe build : PhysicalOperator}
    {b : Segment} (hbuild : Contributes build (n + 1) b)
    (hprobe : Contributes probe
      (n + (b.below n (.binary type id probe build)).length) s) :
    Contributes (.binary type id probe build) n
      ⟨s.source, s.ops ++ [.binary type id probe build], UInt16.ofNat n :: s.dependsOn,
        b.below n (.binary type id probe build) ++ s.closed⟩ where
  streams := hprobe.streams.concat rfl
  among d hd := by
    rw [List.length_append, below_length]
    rcases List.mem_cons.mp hd with rfl | hd
    · exact ⟨n, le_rfl, by omega, rfl⟩
    · obtain ⟨k, hk, hlt, rfl⟩ := hprobe.among d hd
      rw [below_length] at hk hlt
      exact ⟨k, by omega, by omega, rfl⟩
  reads op hop sink hsink := by
    rw [← List.cons_append] at hop
    rcases List.mem_append.mp hop with hop | hop
    · obtain ⟨i, q, hi, hq, hd⟩ := hprobe.reads op hop sink hsink
      refine ⟨(b.below n (.binary type id probe build)).length + i, q, ?_, hq, ?_⟩
      · rw [List.getElem?_append_right (Nat.le_add_right _ _), Nat.add_sub_cancel_left]
        exact hi
      · rw [← Nat.add_assoc]
        exact List.mem_cons_of_mem _ hd
    · obtain rfl : op = .binary type id probe build := by simpa using hop
      obtain rfl : sink = .binary type id probe build := by
        simpa [PhysicalOperator.statesRead] using hsink
      exact ⟨0, _, rfl, rfl, List.mem_cons_self⟩
  closed := by
    have hsink : FeedsSink build (.binary type id probe build) := rfl
    exact (hbuild.below hsink).append hprobe.closed
  sources_perm := by
    show (s.source :: (b.below n (.binary type id probe build) ++ s.closed).filterMap _).Perm
      (probe.sources ++ build.sources)
    rw [List.filterMap_append]
    refine List.Perm.trans ?_ (hprobe.sources_perm.append hbuild.sources_perm)
    exact List.perm_append_comm.cons _
  streaming_perm := by
    show ((s.ops ++ [PhysicalOperator.binary type id probe build]) ++
      (b.below n (.binary type id probe build) ++ s.closed).flatMap Pipeline.ops).Perm
      (.binary type id probe build :: (probe.streaming ++ build.streaming))
    rw [List.flatMap_append, List.append_assoc]
    refine List.perm_middle.trans (List.Perm.cons _ ?_)
    refine List.Perm.trans ?_ (hprobe.streaming_perm.append hbuild.streaming_perm)
    rw [List.append_assoc]
    show (s.ops ++ ((b.below n (.binary type id probe build)).flatMap Pipeline.ops ++
      s.closed.flatMap Pipeline.ops)).Perm _
    exact List.perm_append_comm.append_left _
  sinks_perm := by
    rw [List.filterMap_append]
    refine List.Perm.cons _ ?_
    refine List.Perm.trans ?_ (hprobe.sinks_perm.append hbuild.sinks_perm)
    exact List.perm_append_comm

/-- **Every subtree** contributes what its operators demand. -/
theorem PhysicalOperator.contributes (t : PhysicalOperator) (ht : t.NoOutput) (n : Nat) :
    Contributes t n (t.segment n) := by
  induction t generalizing n with
  | seqScan id => exact contributes_leaf rfl rfl rfl rfl
  | delimScan id => exact contributes_leaf rfl rfl rfl rfl
  | producingDelimScan id sink child ih =>
    have hsink : FeedsSink child (.unary .hashAggregate sink child) := rfl
    exact (ih ht (n + 1)).breaker hsink rfl rfl rfl rfl
  | unary type id child ih =>
    have hsame : type.isSink = type.isPipelineBreaker := by
      cases type <;> first | rfl | exact absurd rfl ht.1
    cases hbreaker : type.isPipelineBreaker with
    | true =>
      have hsink : FeedsSink child (.unary type id child) := rfl
      have h := (ih ht.2 (n + 1)).breaker (t := .unary type id child) hsink
        (by simp [sources, hbreaker]) (by simp [streaming, hsame, hbreaker])
        (by simp [sinks, hsame, hbreaker])
        (by simp [statesRead, hbreaker])
      simpa [segment, hbreaker] using h
    | false =>
      have h := (ih ht.2 n).stream (t := .unary type id child) rfl (by simp [sources, hbreaker])
        (by simp [streaming, hsame, hbreaker]) (by simp [sinks, hsame, hbreaker])
        (by simp [statesRead, hbreaker])
      simpa [segment, hbreaker] using h
  | binary type id probe build ihp ihb => exact (ihb ht.2 (n + 1)).join (ihp ht.1 _)

end Placement

/-! ## The whole tree -/

section Build

def PhysicalOperator.address : PhysicalOperator → Nat
  | .seqScan id => id
  | .delimScan id => id
  | .producingDelimScan id _ _ => id
  | .unary _ id _ => id
  | .binary _ id _ _ => id

theorem sinks_addresses (t : PhysicalOperator) :
    (t.sinks.map PhysicalOperator.address).Sublist t.ids := by
  induction t with
  | seqScan id => exact List.nil_sublist _
  | delimScan id => exact List.nil_sublist _
  | producingDelimScan id sink child ih => exact (ih.cons_cons sink).cons id
  | unary type id child ih =>
    unfold PhysicalOperator.sinks
    split
    · exact ih.cons_cons id
    · exact ih.cons id
  | binary type id probe build ihp ihb =>
    show (id :: (probe.sinks ++ build.sinks).map PhysicalOperator.address).Sublist _
    rw [List.map_append]
    exact (ihp.append ihb).cons_cons id

/-- No two sinks of a tree are the same operator. -/
theorem OperatorTree.sinks_nodup (tree : OperatorTree) : tree.root.sinks.Nodup := by
  have hdistinct : tree.root.ids.Nodup := tree.distinct
  exact List.Nodup.of_map _ ((sinks_addresses tree.root).nodup hdistinct)

/-- The pipelines of a tree: the one that sinks into the output, and those below. -/
theorem OperatorTree.build_eq (tree : OperatorTree) :
    tree.root.build = (tree.child.segment 1).below 0 tree.root := by
  have htop : (MetaPipeline.createPipeline ⟨[], 0⟩) =
      (0, .around [] ⟨0, none, [], none, []⟩ []) := rfl
  have hroot (m : MetaPipeline) : tree.root.buildPipelines 0 m =
      tree.child.buildPipelines 0 (m.setSink 0 tree.root) := rfl
  have hsink : (MetaPipeline.around [] ⟨0, none, [], none, []⟩ []).setSink 0 tree.root =
      .around [] ⟨0, none, [], some tree.root, []⟩ [] :=
    MetaPipeline.setSink_around [] _ [] tree.root
  have hzero : 0 = ([] : List Pipeline).length := rfl
  unfold PhysicalOperator.build
  rw [htop]
  dsimp only
  rw [hroot, hsink, tree.child.buildPipelines_around tree.noOutput rfl hzero (n := 1) rfl]
  rfl

theorem OperatorTree.contributes_child (tree : OperatorTree) :
    Contributes tree.child (0 + 1) (tree.child.segment 1) :=
  tree.child.contributes tree.noOutput 1

theorem OperatorTree.placed (tree : OperatorTree) : Placed 0 tree.root.build := by
  have hsink : FeedsSink tree.child tree.root := rfl
  rw [tree.build_eq]
  exact tree.contributes_child.below hsink

theorem OperatorTree.sinks_perm (tree : OperatorTree) :
    (tree.root.build.filterMap Pipeline.sink).Perm tree.root.sinks := by
  rw [tree.build_eq]
  exact tree.contributes_child.sinks_perm.cons _

theorem map_sink {L : List Pipeline} (h : ∀ p ∈ L, ∃ sink, p.sink = some sink) :
    L.map Pipeline.sink = (L.filterMap Pipeline.sink).map some := by
  induction L with
  | nil => rfl
  | cons p ps ih =>
    obtain ⟨sink, hsink⟩ := h p List.mem_cons_self
    rw [List.map_cons, List.filterMap_cons, hsink,
      ih fun q hq => h q (List.mem_cons_of_mem _ hq)]
    rfl

theorem OperatorTree.has_sink (tree : OperatorTree) :
    ∀ p ∈ tree.root.build, ∃ sink, p.sink = some sink := by
  intro p hp
  obtain ⟨_, sink, _, _, hsink, _⟩ := tree.placed.chain p hp
  exact ⟨sink, hsink⟩

theorem OperatorTree.build_length (tree : OperatorTree) :
    tree.root.build.length = tree.root.sinks.length := by
  have hlength := congrArg List.length (map_sink tree.has_sink)
  rw [List.length_map, List.length_map, tree.sinks_perm.length_eq] at hlength
  exact hlength

/-- A sink has one pipeline. -/
theorem OperatorTree.sink_inj (tree : OperatorTree) {i j : Nat} {p q : Pipeline}
    {sink : PhysicalOperator} (hi : tree.root.build[i]? = some p)
    (hj : tree.root.build[j]? = some q) (hp : p.sink = some sink) (hq : q.sink = some sink) :
    i = j := by
  have hnodup : (tree.root.build.map Pipeline.sink).Nodup := by
    rw [map_sink tree.has_sink]
    refine List.Nodup.map (Option.some_injective _) ?_
    exact tree.sinks_perm.nodup_iff.mpr tree.sinks_nodup
  have hlt : i < (tree.root.build.map Pipeline.sink).length := by
    rw [List.length_map]
    exact (List.getElem?_eq_some_iff.mp hi).1
  refine (List.getElem?_inj hlt hnodup).mp ?_
  rw [List.getElem?_map, List.getElem?_map, hi, hj]
  show some p.sink = some q.sink
  rw [hp, hq]

/-- Later pipelines are those with a greater position. -/
theorem not_transGen_of_lt {R : Nat → Nat → Prop} (h : ∀ i j, R i j → i < j) (i : Nat) :
    ¬ Relation.TransGen R i i := by
  intro hcycle
  have hlt : ∀ j, Relation.TransGen R i j → i < j := by
    intro j hj
    induction hj with
    | single hij => exact h _ _ hij
    | tail _ hjk ih => exact ih.trans (h _ _ hjk)
  exact lt_irrefl i (hlt i hcycle)

/-- **Slicing is right** for every tree whose pipelines can be told apart by a
pipeline id, of which there are `2 ^ 16`. -/
theorem OperatorTree.build_wellBuilt (tree : OperatorTree)
    (hids : tree.root.sinks.length ≤ 2 ^ 16) : WellBuilt tree.root tree.root.build := by
  have hplaced := tree.placed
  have hlength := tree.build_length
  have hdep {i j : Nat} (hij : DependsOn tree.root.build i j) :
      i < j ∧ j < tree.root.build.length := by
    obtain ⟨p, d, hp, hd, rfl⟩ := hij
    obtain ⟨k, hk, hlt, rfl⟩ := hplaced.later i p hp d hd
    rw [UInt16.toNat_ofNat_of_lt' (by show k < 2 ^ 16; omega)]
    omega
  exact {
    chain := by
      intro p hp
      obtain ⟨source, sink, last, hsource, hsink, ⟨hchain, rfl⟩, hfeeds⟩ :=
        hplaced.chain p hp
      exact ⟨source, sink, hsource, hsink, hchain, hfeeds⟩
    sources_perm := by
      rw [tree.build_eq]
      exact tree.contributes_child.sources_perm
    streaming_perm := by
      rw [tree.build_eq]
      exact tree.contributes_child.streaming_perm
    sinks_perm := tree.sinks_perm
    depends_lt := fun i j hij => (hdep hij).2
    acyclic := not_transGen_of_lt fun i j hij => (hdep hij).1
    reads_depend := by
      intro p hp op hop sink hsink j q hq hqsink
      obtain ⟨i, q', hq', hsink', hd⟩ := hplaced.reads p hp op hop sink hsink
      obtain rfl := tree.sink_inj hq' hq hsink' hqsink
      refine ⟨_, hd, ?_⟩
      have hlt := (List.getElem?_eq_some_iff.mp hq').1
      rw [Nat.zero_add, UInt16.toNat_ofNat_of_lt' (by show i < 2 ^ 16; omega)] }

/-- A join whose probe side is aggregated and whose build side reads a delim scan. -/
def joinTree : OperatorTree where
  output := 0
  child := .binary .hashJoin 1 (.unary .hashAggregate 2 (.unary .filter 3 (.seqScan 4)))
    (.producingDelimScan 5 6 (.seqScan 7))
  noOutput := by simp [PhysicalOperator.NoOutput]
  distinct := by decide

theorem build_wellBuilt_joinTree : WellBuilt joinTree.root joinTree.root.build :=
  joinTree.build_wellBuilt (by decide)

/-- `k` sorts above a scan. -/
def sorts : Nat → Nat → PhysicalOperator
  | 0, id => .seqScan id
  | k + 1, id => .unary .order id (sorts k (id + 1))

theorem sorts_noOutput (k id : Nat) : (sorts k id).NoOutput := by
  induction k generalizing id with
  | zero => exact trivial
  | succ k ih => exact ⟨by decide, ih (id + 1)⟩

theorem sorts_ids (k id : Nat) : (sorts k id).ids = List.range' id (k + 1) := by
  induction k generalizing id with
  | zero => rfl
  | succ k ih =>
    rw [List.range'_succ, ← ih (id + 1)]
    rfl

def sortTree (k : Nat) : OperatorTree where
  output := 0
  child := sorts k 1
  noOutput := sorts_noOutput k 1
  distinct := by
    rw [sorts_ids]
    show (0 :: List.range' (0 + 1) (k + 1)).Nodup
    rw [← List.range'_succ]
    exact List.nodup_range'

/-- Each of the stacked pipelines waits for the one below. -/
theorem sorts_dependsOn (k id n : Nat) (sink : PhysicalOperator) {j : Nat} (hj : j < k) :
    ∃ p, (((sorts k id).segment (n + 1)).below n sink)[j]? = some p ∧
      UInt16.ofNat (n + j + 1) ∈ p.dependsOn := by
  induction k generalizing id n sink j with
  | zero => omega
  | succ k ih =>
    cases j with
    | zero => exact ⟨_, rfl, List.mem_cons_self⟩
    | succ j =>
      obtain ⟨p, hp, hd⟩ := ih (id + 1) (n + 1) (sorts (k + 1) id) (j := j) (by omega)
      refine ⟨p, hp, ?_⟩
      rwa [show n + (j + 1) + 1 = n + 1 + j + 1 by omega]

/-- With `2 ^ 16` sorts the ids wrap around, and the deepest pipeline waits for
the topmost one. -/
theorem not_build_wellBuilt : ¬ ∀ tree : OperatorTree, WellBuilt tree.root tree.root.build := by
  intro hall
  have hwell := hall (sortTree (2 ^ 16))
  have hdep (j : Nat) (hj : j < 2 ^ 16) :
      DependsOn (sortTree (2 ^ 16)).root.build j ((j + 1) % 2 ^ 16) := by
    obtain ⟨p, hp, hd⟩ := sorts_dependsOn (2 ^ 16) 1 0 (sortTree (2 ^ 16)).root hj
    refine ⟨p, _, ?_, hd, ?_⟩
    · rw [(sortTree (2 ^ 16)).build_eq]
      exact hp
    · rw [Nat.zero_add]
      exact UInt16.toNat_ofNat'
  have hpath (m : Nat) (hm : m + 1 < 2 ^ 16) :
      Relation.TransGen (DependsOn (sortTree (2 ^ 16)).root.build) 0 (m + 1) := by
    induction m with
    | zero => exact .single (hdep 0 (by omega))
    | succ m ih =>
      have hnext := hdep (m + 1) (by omega)
      rw [Nat.mod_eq_of_lt (by omega)] at hnext
      exact (ih (by omega)).tail hnext
  have hdown : Relation.TransGen (DependsOn (sortTree (2 ^ 16)).root.build) 0 65535 :=
    hpath 65534 (by omega)
  have hup : DependsOn (sortTree (2 ^ 16)).root.build 65535 0 := hdep 65535 (by omega)
  exact hwell.acyclic 0 (hdown.tail hup)

end Build

end BuildPipelines
end PgYaap
