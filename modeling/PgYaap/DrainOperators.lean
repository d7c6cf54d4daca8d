import Mathlib
import PgYaap.StreamingOperator

/-! # Draining the operators of a pipeline

A RUN task pulls chunks from the source and pushes each one through the
streaming operators of the pipeline into the sink. The operators write their
output into two scratch chunks in turn, and an operator that has more output is
called again with the same input chunk after the operators behind it have
drained. With an operator in front and an operator behind it, its input chunk is
the output chunk of the operator behind: the second call then sees an empty
chunk. The theorems say which rows reach the sink, and when those are all.

Left out are the cancellation poll and the shutdown flag, which end a task early. -/
namespace PgYaap
namespace DrainOperators
open StreamingOperator

/-- `PIPELINE_DEFAULT_CHUNK_SIZE`: the rows a chunk has room for. -/
def pipelineDefaultChunkSize : Nat := 2048

inductive OperatorResultType
  | needMoreInput
  | haveMoreOutput
deriving DecidableEq

inductive TaskExecutionResult
  | taskFinished
  | taskNotFinished
deriving DecidableEq

/-- The three chunks of a RUN task. -/
inductive PipelineChunk
  | srcChunk
  | scratchA
  | scratchB
deriving DecidableEq

/-- The worker's state of one operator: whether the input of the last call was
exhausted by it, and where to resume otherwise. -/
structure OperatorState (σ : Type) where
  currentInputDrained : Bool
  cursor : σ
deriving DecidableEq

/-- What a worker keeps for a pipeline, with the rows it handed to the sink. -/
structure PipelineExecState (σ Row : Type) where
  chunk : PipelineChunk → List Row
  localOps : Nat → OperatorState σ
  sinkRows : List Row

section Model
variable {σ Row : Type}

/-- The state `GetOperatorState` makes. -/
def freshState (op : StreamingOperator σ Row) : OperatorState σ := ⟨false, op.init⟩

/-- `Execute` of a streaming operator. A call after the one that exhausted the
input only takes the mark back. -/
def execute (op : StreamingOperator σ Row) (input : List Row) (st : OperatorState σ) :
    OperatorResultType × List Row × OperatorState σ :=
  if st.currentInputDrained then
    (.needMoreInput, [], { st with currentInputDrained := false })
  else
    match op.read st.cursor input with
    | .full rows cursor => (.haveMoreOutput, rows, ⟨false, cursor⟩)
    | .exhausted rows =>
      if rows.isEmpty then (.needMoreInput, [], ⟨false, op.init⟩)
      else (.haveMoreOutput, rows, ⟨true, op.init⟩)

/-- The scratch chunk an operator writes to. -/
def outChunk (input : PipelineChunk) : PipelineChunk :=
  if input = .scratchA then .scratchB else .scratchA

def PipelineExecState.setChunk (ps : PipelineExecState σ Row) (ref : PipelineChunk)
    (rows : List Row) : PipelineExecState σ Row :=
  { ps with chunk := Function.update ps.chunk ref rows }

def PipelineExecState.setOp (ps : PipelineExecState σ Row) (i : Nat) (st : OperatorState σ) :
    PipelineExecState σ Row :=
  { ps with localOps := Function.update ps.localOps i st }

def PipelineExecState.sinkChunk (ps : PipelineExecState σ Row) (input : PipelineChunk) :
    PipelineExecState σ Row :=
  { ps with sinkRows := ps.sinkRows ++ ps.chunk input }

/-- One turn of the loop in `DrainOperatorSuffix`: reset the output chunk, call
`Execute`. -/
def callOperator (op : StreamingOperator σ Row) (opIdx : Nat) (input : PipelineChunk)
    (ps : PipelineExecState σ Row) : OperatorResultType × PipelineExecState σ Row :=
  let ps := ps.setChunk (outChunk input) []
  let r := execute op (ps.chunk input) (ps.localOps opIdx)
  (r.1, (ps.setChunk (outChunk input) r.2.1).setOp opIdx r.2.2)

/-- `DrainOperatorSuffix`. The next turn of the loop is a call with the same
operator and the same input chunk. -/
def drainOperatorSuffix (ops : List (StreamingOperator σ Row)) :
    Nat → Nat → PipelineChunk → PipelineExecState σ Row → Option (PipelineExecState σ Row)
  | 0, _, _, _ => none
  | fuel + 1, opIdx, input, ps =>
    match ops[opIdx]? with
    | none => some (ps.sinkChunk input)
    | some op =>
      let r := callOperator op opIdx input ps
      match r.1 with
      | .needMoreInput => some r.2
      | .haveMoreOutput =>
        (drainOperatorSuffix ops fuel (opIdx + 1) (outChunk input) r.2).bind
          (drainOperatorSuffix ops fuel opIdx input)

/-- The chunks one execution of a RUN task takes from the source. -/
def chunkBudget : Nat := 32

/-- `PipelineRunTask::Execute`, with the chunks the source still has to give. -/
def runTask (ops : List (StreamingOperator σ Row)) (fuel : Nat) :
    Nat → List (List Row) → PipelineExecState σ Row →
      Option (TaskExecutionResult × List (List Row) × PipelineExecState σ Row)
  | 0, chunks, ps => some (.taskNotFinished, chunks, ps)
  | _ + 1, [], ps => some (.taskFinished, [], ps)
  | budget + 1, X :: chunks, ps =>
    (drainOperatorSuffix ops fuel 0 .srcChunk (ps.setChunk .srcChunk X)).bind
      (runTask ops fuel budget chunks)

/-- A worker executes its RUN task at most `n` times, again as long as it is not finished. -/
def runTasks (ops : List (StreamingOperator σ Row)) (fuel : Nat) :
    Nat → List (List Row) → PipelineExecState σ Row →
      Option (List (List Row) × PipelineExecState σ Row)
  | 0, chunks, ps => some (chunks, ps)
  | n + 1, chunks, ps =>
    (runTask ops fuel chunkBudget chunks ps).bind fun r =>
      match r.1 with
      | .taskFinished => some r.2
      | .taskNotFinished => runTasks ops fuel n r.2.1 r.2.2

/-- The state `EnsureRunLocalStates` and `EnsureRunChunks` make. -/
def PipelineExecState.fresh [Inhabited σ] (ops : List (StreamingOperator σ Row)) :
    PipelineExecState σ Row where
  chunk := fun _ => []
  localOps := fun i => (ops[i]?.map freshState).getD ⟨false, default⟩
  sinkRows := []

end Model

/-! ## What reaches the sink -/

section Delivered
variable {σ Row : Type}

/-- The rows a drain hands to the sink: an operator with an operator in front
(`behind`) and one behind it only gets its first output chunk through. -/
def delivered : List (StreamingOperator σ Row) → Bool → List Row → List Row
  | [], _, X => X
  | op :: rest, behind, X =>
    (if behind = true ∧ rest ≠ [] then (op.outputs X).take 1 else op.outputs X).flatMap
      (delivered rest true)

/-- No operator with one in front and one behind it makes, of a chunk that
reaches it, a second or later output chunk that yields rows at the end of the
pipeline. -/
def Undisturbed : List (StreamingOperator σ Row) → Bool → List Row → Prop
  | [], _, _ => True
  | op :: rest, behind, X =>
    (behind = true → rest ≠ [] → ∀ Y ∈ (op.outputs X).tail, composed rest Y = []) ∧
      ∀ Y ∈ op.outputs X, Undisturbed rest true Y

variable {op : StreamingOperator σ Row} {rest ops : List (StreamingOperator σ Row)}
  {behind : Bool} {X : List Row}

theorem delivered_middle (h : rest ≠ []) :
    delivered (op :: rest) true X = ((op.outputs X).take 1).flatMap (delivered rest true) := by
  rw [delivered, if_pos ⟨rfl, h⟩]

theorem delivered_outer (h : behind = true → rest = []) :
    delivered (op :: rest) behind X = (op.outputs X).flatMap (delivered rest true) := by
  rw [delivered, if_neg fun hm => hm.2 (h hm.1)]

/-- Nothing is duplicated, reordered or made up. -/
theorem delivered_sublist (ops : List (StreamingOperator σ Row)) (behind : Bool) (X : List Row) :
    (delivered ops behind X).Sublist (composed ops X) := by
  induction ops generalizing behind X with
  | nil => exact List.Sublist.refl _
  | cons op rest ih =>
    have hall : ((op.outputs X).flatMap (delivered rest true)).Sublist
        ((op.outputs X).flatMap (composed rest)) := List.Sublist.flatMap_right _ fun Y _ => ih true Y
    by_cases hm : behind = true ∧ rest ≠ []
    · rw [delivered, if_pos hm]
      exact ((List.take_sublist 1 _).flatMap _).trans hall
    · rw [delivered, if_neg hm]
      exact hall

/-- **All rows arrive exactly when no operator is disturbed.** -/
theorem delivered_eq_composed_iff (ops : List (StreamingOperator σ Row)) (behind : Bool)
    (X : List Row) : delivered ops behind X = composed ops X ↔ Undisturbed ops behind X := by
  induction ops generalizing behind X with
  | nil => exact ⟨fun _ => trivial, fun _ => rfl⟩
  | cons op rest ih =>
    by_cases hm : behind = true ∧ rest ≠ []
    · obtain ⟨rfl, hrest⟩ := hm
      rw [delivered_middle hrest, composed, Undisturbed]
      cases hout : op.outputs X with
      | nil => simp
      | cons Y Ys =>
        have hsplit : delivered rest true Y ++ [] = composed rest Y ++ Ys.flatMap (composed rest) ↔
            delivered rest true Y = composed rest Y ∧ [] = Ys.flatMap (composed rest) :=
          List.append_eq_append_iff_of_sublist (delivered_sublist rest true Y) (List.nil_sublist _)
        have htake : ((Y :: Ys).take 1).flatMap (delivered rest true) =
            delivered rest true Y ++ [] := rfl
        rw [htake, List.flatMap_cons, hsplit, ih, eq_comm, List.flatMap_eq_nil_iff, List.tail_cons,
          List.forall_mem_cons]
        constructor
        · rintro ⟨hY, hlost⟩
          refine ⟨fun _ _ => hlost, hY, fun Z hZ => ?_⟩
          -- a chunk that yields no row loses none further on
          have hsub := delivered_sublist rest true Z
          rw [hlost Z hZ] at hsub
          exact (ih true Z).mp ((List.sublist_nil.mp hsub).trans (hlost Z hZ).symm)
        · rintro ⟨hlost, hY, _⟩
          exact ⟨hY, hlost rfl hrest⟩
    · have houter : behind = true → rest = [] := by
        intro hb
        by_contra hrest
        exact hm ⟨hb, hrest⟩
      rw [delivered_outer houter, composed, Undisturbed,
        List.flatMap_eq_iff_of_sublist fun Y _ => delivered_sublist rest true Y]
      constructor
      · intro h
        exact ⟨fun hb hrest => absurd (houter hb) hrest, fun Y hY => (ih true Y).mp (h Y hY)⟩
      · rintro ⟨_, h⟩ Y hY
        exact (ih true Y).mpr (h Y hY)

end Delivered

/-! ## One drain -/

section Drain
variable {σ Row : Type} {ops : List (StreamingOperator σ Row)} {op : StreamingOperator σ Row}
  {ps ps' : PipelineExecState σ Row} {i : Nat} {input : PipelineChunk}

def PipelineChunk.isScratch (ref : PipelineChunk) : Bool := ref ≠ .srcChunk

theorem outChunk_ne (input : PipelineChunk) : outChunk input ≠ input := by
  cases input <;> decide

theorem outChunk_isScratch (input : PipelineChunk) : (outChunk input).isScratch = true := by
  cases input <;> decide

theorem outChunk_ne_srcChunk (input : PipelineChunk) : outChunk input ≠ .srcChunk := by
  cases input <;> decide

/-- **The two scratch chunks alternate**: the operator behind writes to the chunk
its predecessor reads. -/
theorem outChunk_outChunk (h : input.isScratch = true) : outChunk (outChunk input) = input := by
  cases input with
  | srcChunk => cases h
  | scratchA => rfl
  | scratchB => rfl

/-- The state after an `Execute` that wrote `rows` and left the operator in `st`. -/
def answered (ps : PipelineExecState σ Row) (input : PipelineChunk) (i : Nat) (rows : List Row)
    (st : OperatorState σ) : PipelineExecState σ Row :=
  ((ps.setChunk (outChunk input) []).setChunk (outChunk input) rows).setOp i st

section Answered
variable (ps : PipelineExecState σ Row) (input : PipelineChunk) (i : Nat) (rows : List Row)
  (st : OperatorState σ)

@[simp] theorem answered_chunk_out : (answered ps input i rows st).chunk (outChunk input) = rows :=
  Function.update_self _ _ _

theorem answered_chunk_of_ne {ref : PipelineChunk} (h : ref ≠ outChunk input) :
    (answered ps input i rows st).chunk ref = ps.chunk ref := by
  change Function.update (Function.update ps.chunk (outChunk input) []) (outChunk input) rows ref = _
  rw [Function.update_of_ne h, Function.update_of_ne h]

@[simp] theorem answered_chunk_input : (answered ps input i rows st).chunk input = ps.chunk input :=
  answered_chunk_of_ne ps input i rows st (outChunk_ne input).symm

@[simp] theorem answered_srcChunk :
    (answered ps input i rows st).chunk .srcChunk = ps.chunk .srcChunk :=
  answered_chunk_of_ne ps input i rows st (outChunk_ne_srcChunk input).symm

@[simp] theorem answered_sinkRows : (answered ps input i rows st).sinkRows = ps.sinkRows := rfl

@[simp] theorem answered_localOps_self : (answered ps input i rows st).localOps i = st :=
  Function.update_self _ _ _

theorem answered_localOps_of_ne {j : Nat} (h : j ≠ i) :
    (answered ps input i rows st).localOps j = ps.localOps j :=
  Function.update_of_ne h _ _

end Answered

section Call
variable {c c' : σ} {rows : List Row}

theorem callOperator_eq :
    callOperator op i input ps =
      ((execute op (ps.chunk input) (ps.localOps i)).1,
        answered ps input i (execute op (ps.chunk input) (ps.localOps i)).2.1
          (execute op (ps.chunk input) (ps.localOps i)).2.2) := by
  have hin : (ps.setChunk (outChunk input) []).chunk input = ps.chunk input :=
    Function.update_of_ne (outChunk_ne input).symm _ _
  unfold callOperator answered
  dsimp only
  rw [hin]
  rfl

theorem callOperator_drained (h : ps.localOps i = ⟨true, c⟩) :
    callOperator op i input ps = (.needMoreInput, answered ps input i [] ⟨false, c⟩) := by
  rw [callOperator_eq, h]
  rfl

theorem callOperator_full (h : ps.localOps i = ⟨false, c⟩)
    (hr : op.read c (ps.chunk input) = .full rows c') :
    callOperator op i input ps = (.haveMoreOutput, answered ps input i rows ⟨false, c'⟩) := by
  rw [callOperator_eq, h]
  simp only [execute, Bool.false_eq_true, if_false, hr]

theorem callOperator_exhausted_nil (h : ps.localOps i = ⟨false, c⟩)
    (hr : op.read c (ps.chunk input) = .exhausted []) :
    callOperator op i input ps = (.needMoreInput, answered ps input i [] (freshState op)) := by
  rw [callOperator_eq, h]
  simp only [execute, Bool.false_eq_true, if_false, hr, List.isEmpty_nil, if_true]
  rfl

theorem callOperator_exhausted (h : ps.localOps i = ⟨false, c⟩)
    (hr : op.read c (ps.chunk input) = .exhausted rows) (hrows : rows ≠ []) :
    callOperator op i input ps = (.haveMoreOutput, answered ps input i rows ⟨true, op.init⟩) := by
  have hne : rows.isEmpty = false := by
    cases rows with
    | nil => exact absurd rfl hrows
    | cons _ _ => rfl
  rw [callOperator_eq, h]
  simp only [execute, Bool.false_eq_true, if_false, hr, hne]

end Call

/-- The turn that ends the loop. -/
theorem drain_arrives_needMore (hop : ops[i]? = some op)
    (hcall : callOperator op i input ps = (.needMoreInput, ps')) :
    Arrives (fun n => drainOperatorSuffix ops n i input ps) ps' := by
  apply Arrives.of_succ
  refine ⟨0, fun n _ => ?_⟩
  simp only [drainOperatorSuffix, hop, hcall]

/-- A turn with output: the suffix behind drains, then the loop goes on. -/
theorem drain_arrives_haveMore {ps1 ps2 : PipelineExecState σ Row} (hop : ops[i]? = some op)
    (hcall : callOperator op i input ps = (.haveMoreOutput, ps1))
    (hdown : Arrives (fun n => drainOperatorSuffix ops n (i + 1) (outChunk input) ps1) ps2)
    (hloop : Arrives (fun n => drainOperatorSuffix ops n i input ps2) ps') :
    Arrives (fun n => drainOperatorSuffix ops n i input ps) ps' := by
  apply Arrives.of_succ
  have hbind := hdown.bind hloop
  obtain ⟨N, hN⟩ := hbind
  refine ⟨N, fun n hn => ?_⟩
  simp only [drainOperatorSuffix, hop, hcall]
  exact hN n hn

/-- The operators from `i` on wait for a new input chunk. -/
def IdleFrom (ops : List (StreamingOperator σ Row)) (i : Nat) (ps : PipelineExecState σ Row) : Prop :=
  ∀ j op, i ≤ j → ops[j]? = some op → ps.localOps j = freshState op

/-- What the drain of the suffix from `i` on has done when it returns. -/
structure Drained (ops : List (StreamingOperator σ Row)) (i : Nat) (input : PipelineChunk)
    (ps ps' : PipelineExecState σ Row) : Prop where
  sinkRows : ps'.sinkRows =
    ps.sinkRows ++ delivered (ops.drop i) input.isScratch (ps.chunk input)
  idle : IdleFrom ops i ps'
  earlier : ∀ j, j < i → ps'.localOps j = ps.localOps j
  srcChunk : ps'.chunk .srcChunk = ps.chunk .srcChunk
  out_empty : i < ops.length → ps'.chunk (outChunk input) = []
  chunks_kept : ops.length ≤ i → ps'.chunk = ps.chunk

theorem IdleFrom.answered {rows : List Row} {st : OperatorState σ} (h : IdleFrom ops (i + 1) ps) :
    IdleFrom ops (i + 1) (answered ps input i rows st) := by
  intro j op hj hop
  rw [answered_localOps_of_ne ps input i rows st (by omega)]
  exact h j op hj hop

theorem IdleFrom.answered_fresh {rows : List Row} (hop : ops[i]? = some op)
    (h : IdleFrom ops (i + 1) ps) :
    IdleFrom ops i (DrainOperators.answered ps input i rows (freshState op)) := by
  intro j op' hj hop'
  rcases Nat.eq_or_lt_of_le hj with rfl | hlt
  · rw [hop] at hop'
    cases hop'
    exact answered_localOps_self ps input i rows (freshState op)
  · exact h.answered j op' hlt hop'

section Loop
variable {rest : List (StreamingOperator σ Row)}

/-- What the suffix behind operator `i` does with every chunk it gets. -/
def SuffixDrains (ops : List (StreamingOperator σ Row)) (i : Nat) (input : PipelineChunk) : Prop :=
  ∀ ps, IdleFrom ops i ps →
    ∃ ps', Arrives (fun n => drainOperatorSuffix ops n i input ps) ps' ∧ Drained ops i input ps ps'

theorem getElem?_of_drop (hdrop : ops.drop i = op :: rest) : ops[i]? = some op := by
  have h : (ops.drop i)[0]? = some op := by rw [hdrop]; rfl
  rwa [List.getElem?_drop, Nat.add_zero] at h

theorem drop_succ_of_drop (hdrop : ops.drop i = op :: rest) : ops.drop (i + 1) = rest := by
  have h : (ops.drop i).drop 1 = rest := by rw [hdrop]; rfl
  rwa [List.drop_drop] at h

/-- The chunk an operator hands on stays as it was unless another operator is behind. -/
theorem Drained.input_kept {rows : List Row} {st : OperatorState σ}
    (h : Drained ops (i + 1) (outChunk input) (answered ps input i rows st) ps')
    (hdrop : ops.drop i = op :: rest) (hkeep : input.isScratch = true → rest = []) :
    ps'.chunk input = ps.chunk input := by
  by_cases hin : input.isScratch = true
  · have hlen : ops.length ≤ i + 1 := by
      have hnil : ops.drop (i + 1) = [] := (drop_succ_of_drop hdrop).trans (hkeep hin)
      exact List.drop_eq_nil_iff.mp hnil
    rw [h.chunks_kept hlen]
    exact answered_chunk_input ps input i rows st
  · have hsrc : input = .srcChunk := by
      cases input with
      | srcChunk => rfl
      | scratchA => exact absurd rfl hin
      | scratchB => exact absurd rfl hin
    subst hsrc
    rw [h.srcChunk]
    exact answered_srcChunk ps .srcChunk i rows st

/-- **The loop of an operator whose input is left alone** hands every output
chunk to the operators behind it. By induction on how far the input is from
being exhausted. -/
theorem loop_intact (hdrop : ops.drop i = op :: rest) (hkeep : input.isScratch = true → rest = [])
    (hdown : SuffixDrains ops (i + 1) (outChunk input)) (X : List Row) (fuel : Nat) (c : σ)
    (hfuel : op.remaining c X < fuel) (ps : PipelineExecState σ Row) (hX : ps.chunk input = X)
    (hst : ps.localOps i = ⟨false, c⟩) (hidle : IdleFrom ops (i + 1) ps) :
    ∃ ps', Arrives (fun n => drainOperatorSuffix ops n i input ps) ps' ∧
      ps'.sinkRows = ps.sinkRows ++ (op.outputsFrom fuel c X).flatMap (delivered rest true) ∧
      IdleFrom ops i ps' ∧ (∀ j, j < i → ps'.localOps j = ps.localOps j) ∧
      ps'.chunk .srcChunk = ps.chunk .srcChunk ∧ ps'.chunk (outChunk input) = [] := by
  have hop := getElem?_of_drop hdrop
  have hrest := drop_succ_of_drop hdrop
  induction fuel generalizing c ps with
  | zero => omega
  | succ fuel ih =>
    cases hr : op.read c X with
    | full rows c' =>
      have hcall := callOperator_full hst (hX.symm ▸ hr)
      obtain ⟨ps2, harr, hd⟩ := hdown (answered ps input i rows ⟨false, c'⟩) hidle.answered
      have hX2 : ps2.chunk input = X := (hd.input_kept hdrop hkeep).trans hX
      have hst2 : ps2.localOps i = ⟨false, c'⟩ :=
        (hd.earlier i (Nat.lt_succ_self i)).trans (answered_localOps_self ps input i rows _)
      have hlt := op.full_remaining hr
      obtain ⟨ps3, harr3, hsink, hidle3, hearlier, hsrc, hout⟩ :=
        ih c' (by omega) ps2 hX2 hst2 hd.idle
      refine ⟨ps3, drain_arrives_haveMore hop hcall harr harr3, ?_, hidle3, ?_, ?_, hout⟩
      · rw [hsink, hd.sinkRows, op.outputsFrom_full hr, List.flatMap_cons, hrest,
          outChunk_isScratch, answered_chunk_out, answered_sinkRows, List.append_assoc]
      · intro j hj
        rw [hearlier j hj, hd.earlier j (by omega)]
        exact answered_localOps_of_ne ps input i rows _ (by omega)
      · rw [hsrc, hd.srcChunk, answered_srcChunk]
    | exhausted rows =>
      by_cases hrows : rows = []
      · subst hrows
        have hcall := callOperator_exhausted_nil hst (hX.symm ▸ hr)
        refine ⟨_, drain_arrives_needMore hop hcall, ?_, hidle.answered_fresh hop, ?_, ?_, ?_⟩
        · rw [op.outputsFrom_exhausted hr]
          simp
        · intro j hj
          exact answered_localOps_of_ne ps input i [] _ (by omega)
        · exact answered_srcChunk ps input i [] _
        · exact answered_chunk_out ps input i [] _
      · have hcall := callOperator_exhausted hst (hX.symm ▸ hr) hrows
        obtain ⟨ps2, harr, hd⟩ := hdown (answered ps input i rows ⟨true, op.init⟩) hidle.answered
        have hst2 : ps2.localOps i = ⟨true, op.init⟩ :=
          (hd.earlier i (Nat.lt_succ_self i)).trans (answered_localOps_self ps input i rows _)
        have hcall2 : callOperator op i input ps2 = _ := callOperator_drained hst2
        refine ⟨_, drain_arrives_haveMore hop hcall harr (drain_arrives_needMore hop hcall2), ?_,
          hd.idle.answered_fresh hop, ?_, ?_, ?_⟩
        · have hne : rows.isEmpty = false := by
            cases rows with
            | nil => exact absurd rfl hrows
            | cons _ _ => rfl
          rw [answered_sinkRows, hd.sinkRows, op.outputsFrom_exhausted hr, hne, hrest,
            outChunk_isScratch, answered_chunk_out, answered_sinkRows]
          simp
        · intro j hj
          rw [answered_localOps_of_ne ps2 input i [] _ (by omega), hd.earlier j (by omega)]
          exact answered_localOps_of_ne ps input i rows _ (by omega)
        · rw [answered_srcChunk, hd.srcChunk, answered_srcChunk]
        · exact answered_chunk_out ps2 input i [] _

/-- **The loop of an operator between two others** gets one output chunk through:
its input chunk comes back empty from the operator behind it. -/
theorem loop_disturbed (hdrop : ops.drop i = op :: rest) (hin : input.isScratch = true)
    (hrest : rest ≠ []) (hdown : SuffixDrains ops (i + 1) (outChunk input))
    (hst : ps.localOps i = freshState op) (hidle : IdleFrom ops (i + 1) ps) :
    ∃ ps', Arrives (fun n => drainOperatorSuffix ops n i input ps) ps' ∧
      ps'.sinkRows = ps.sinkRows ++
        ((op.outputs (ps.chunk input)).take 1).flatMap (delivered rest true) ∧
      IdleFrom ops i ps' ∧ (∀ j, j < i → ps'.localOps j = ps.localOps j) ∧
      ps'.chunk .srcChunk = ps.chunk .srcChunk ∧ ps'.chunk (outChunk input) = [] := by
  have hop := getElem?_of_drop hdrop
  have hdrop' := drop_succ_of_drop hdrop
  have hlen : i + 1 < ops.length := by
    by_contra hge
    exact hrest (hdrop'.symm.trans (List.drop_eq_nil_of_le (Nat.le_of_not_lt hge)))
  -- a turn with output empties the input, and the turn after it ends the loop
  have hturn : ∀ rows st, callOperator op i input ps = (.haveMoreOutput, answered ps input i rows st) →
      (∀ ps2 : PipelineExecState σ Row, ps2.localOps i = st → ps2.chunk input = [] →
        callOperator op i input ps2 = (.needMoreInput, answered ps2 input i [] (freshState op))) →
      ∃ ps', Arrives (fun n => drainOperatorSuffix ops n i input ps) ps' ∧
        ps'.sinkRows = ps.sinkRows ++ delivered rest true rows ∧
        IdleFrom ops i ps' ∧ (∀ j, j < i → ps'.localOps j = ps.localOps j) ∧
        ps'.chunk .srcChunk = ps.chunk .srcChunk ∧ ps'.chunk (outChunk input) = [] := by
    intro rows st hcall hlast
    obtain ⟨ps2, harr, hd⟩ := hdown (answered ps input i rows st) hidle.answered
    have hempty : ps2.chunk input = [] := by
      have h := hd.out_empty hlen
      rwa [outChunk_outChunk hin] at h
    have hst2 : ps2.localOps i = st :=
      (hd.earlier i (Nat.lt_succ_self i)).trans (answered_localOps_self ps input i rows st)
    have hcall2 := hlast ps2 hst2 hempty
    refine ⟨_, drain_arrives_haveMore hop hcall harr (drain_arrives_needMore hop hcall2), ?_,
      hd.idle.answered_fresh hop, ?_, ?_, ?_⟩
    · rw [answered_sinkRows, hd.sinkRows, hdrop', outChunk_isScratch, answered_chunk_out,
        answered_sinkRows]
    · intro j hj
      rw [answered_localOps_of_ne ps2 input i [] _ (by omega), hd.earlier j (by omega)]
      exact answered_localOps_of_ne ps input i rows st (by omega)
    · rw [answered_srcChunk, hd.srcChunk, answered_srcChunk]
    · exact answered_chunk_out ps2 input i [] _
  cases hr : op.read op.init (ps.chunk input) with
  | full rows c =>
    have htake : (op.outputs (ps.chunk input)).take 1 = [rows] := by
      rw [StreamingOperator.outputs, op.outputsFrom_full hr]
      rfl
    rw [htake, List.flatMap_singleton]
    refine hturn rows ⟨false, c⟩ (callOperator_full hst hr) fun ps2 hst2 hempty => ?_
    apply callOperator_exhausted_nil hst2
    rw [hempty]
    exact op.read_nil c
  | exhausted rows =>
    by_cases hrows : rows = []
    · subst hrows
      have hcall := callOperator_exhausted_nil hst hr
      refine ⟨_, drain_arrives_needMore hop hcall, ?_, hidle.answered_fresh hop, ?_, ?_, ?_⟩
      · rw [StreamingOperator.outputs, op.outputsFrom_exhausted hr]
        simp
      · intro j hj
        exact answered_localOps_of_ne ps input i [] _ (by omega)
      · exact answered_srcChunk ps input i [] _
      · exact answered_chunk_out ps input i [] _
    · have htake : (op.outputs (ps.chunk input)).take 1 = [rows] := by
        have hne : rows.isEmpty = false := by
          cases rows with
          | nil => exact absurd rfl hrows
          | cons _ _ => rfl
        rw [StreamingOperator.outputs, op.outputsFrom_exhausted hr, hne]
        rfl
      rw [htake, List.flatMap_singleton]
      exact hturn rows ⟨true, op.init⟩ (callOperator_exhausted hst hr hrows) fun ps2 hst2 _ =>
        callOperator_drained hst2

end Loop

/-- **A drain terminates** and hands exactly the delivered rows to the sink. By
induction on the operators behind. -/
theorem drain_drains (ops : List (StreamingOperator σ Row)) (rest : List (StreamingOperator σ Row))
    (i : Nat) (input : PipelineChunk) (hdrop : ops.drop i = rest) : SuffixDrains ops i input := by
  induction rest generalizing i input with
  | nil =>
    intro ps hidle
    have hlen : ops.length ≤ i := List.drop_eq_nil_iff.mp hdrop
    have hnone : ops[i]? = none := List.getElem?_eq_none hlen
    refine ⟨ps.sinkChunk input, ?_, ?_⟩
    · apply Arrives.of_succ
      refine ⟨0, fun n _ => ?_⟩
      simp only [drainOperatorSuffix, hnone]
    · refine ⟨?_, hidle, fun _ _ => rfl, rfl, fun h => absurd h (by omega), fun _ => rfl⟩
      rw [hdrop]
      rfl
  | cons op rest ih =>
    intro ps hidle
    have hop := getElem?_of_drop hdrop
    have hlen : i < ops.length := by
      by_contra hge
      rw [List.getElem?_eq_none (Nat.le_of_not_lt hge)] at hop
      cases hop
    have hdown := ih (i + 1) (outChunk input) (drop_succ_of_drop hdrop)
    have hst := hidle i op (Nat.le_refl i) hop
    have hidle' : IdleFrom ops (i + 1) ps := fun j op hj => hidle j op (by omega)
    by_cases hm : input.isScratch = true ∧ rest ≠ []
    · obtain ⟨hin, hrest⟩ := hm
      obtain ⟨ps', harr, hsink, hidle2, hearlier, hsrc, hout⟩ :=
        loop_disturbed hdrop hin hrest hdown hst hidle'
      refine ⟨ps', harr, ?_, hidle2, hearlier, hsrc, fun _ => hout, fun h => absurd h (by omega)⟩
      rw [hsink, hdrop, hin, delivered_middle hrest]
    · have hkeep : input.isScratch = true → rest = [] := by
        intro hin
        by_contra hrest
        exact hm ⟨hin, hrest⟩
      obtain ⟨ps', harr, hsink, hidle2, hearlier, hsrc, hout⟩ :=
        loop_intact hdrop hkeep hdown (ps.chunk input) _ op.init (Nat.lt_succ_self _) ps rfl hst hidle'
      refine ⟨ps', harr, ?_, hidle2, hearlier, hsrc, fun _ => hout, fun h => absurd h (by omega)⟩
      rw [hsink, hdrop, delivered_outer hkeep]
      rfl

end Drain

/-! ## RUN tasks -/

section Task
variable {σ Row : Type} (ops : List (StreamingOperator σ Row))

/-- What all the chunks a worker takes from the source come to. -/
theorem runTask_arrives (budget : Nat) (chunks : List (List Row)) (ps : PipelineExecState σ Row)
    (hidle : IdleFrom ops 0 ps) :
    ∃ r, Arrives (fun n => runTask ops n budget chunks ps) r ∧
      r.2.2.sinkRows = ps.sinkRows ++ (chunks.take budget).flatMap (delivered ops false) ∧
      r.2.1 = chunks.drop budget ∧ IdleFrom ops 0 r.2.2 ∧
      (r.1 = .taskFinished → r.2.1 = []) := by
  induction budget generalizing chunks ps with
  | zero =>
    refine ⟨_, Arrives.pure (TaskExecutionResult.taskNotFinished, chunks, ps), ?_, rfl, hidle, ?_⟩
    · simp
    · intro h
      cases h
  | succ budget ih =>
    cases chunks with
    | nil =>
      refine ⟨_, Arrives.pure (TaskExecutionResult.taskFinished, [], ps), ?_, rfl, hidle, fun _ => rfl⟩
      simp
    | cons X chunks =>
      obtain ⟨ps1, harr, hd⟩ :=
        drain_drains ops _ 0 .srcChunk rfl (ps.setChunk .srcChunk X) hidle
      obtain ⟨r, harr', hsink, hrest, hidle', hfin⟩ := ih chunks ps1 hd.idle
      refine ⟨r, harr.bind harr', ?_, hrest, hidle', hfin⟩
      have hX : (ps.setChunk .srcChunk X).chunk .srcChunk = X := by simp [PipelineExecState.setChunk]
      rw [hsink, hd.sinkRows, List.drop_zero, hX, List.take_succ_cons, List.flatMap_cons,
        List.append_assoc]
      rfl

theorem runTasks_arrives (n : Nat) (chunks : List (List Row)) (ps : PipelineExecState σ Row)
    (hidle : IdleFrom ops 0 ps) :
    ∃ r, Arrives (fun fuel => runTasks ops fuel n chunks ps) r ∧
      r.2.sinkRows = ps.sinkRows ++
        (chunks.take (chunkBudget * n)).flatMap (delivered ops false) := by
  induction n generalizing chunks ps with
  | zero => exact ⟨_, Arrives.pure (chunks, ps), by simp⟩
  | succ n ih =>
    obtain ⟨⟨res, rest, ps1⟩, harr, hsink, hrest, hidle1, hfin⟩ :=
      runTask_arrives ops chunkBudget chunks ps hidle
    dsimp only at hsink hrest hidle1 hfin
    have hsplit : chunks.take (chunkBudget * (n + 1)) =
        chunks.take chunkBudget ++ rest.take (chunkBudget * n) := by
      rw [hrest, Nat.mul_succ, Nat.add_comm, List.take_add]
    cases res with
    | taskFinished =>
      refine ⟨(rest, ps1), harr.bind (Arrives.pure _), ?_⟩
      rw [hsplit, hfin rfl, List.take_nil, List.append_nil]
      exact hsink
    | taskNotFinished =>
      obtain ⟨r, harr', hsink'⟩ := ih rest ps1 hidle1
      refine ⟨r, harr.bind harr', ?_⟩
      rw [hsink', hsink, hsplit, List.flatMap_append, List.append_assoc]

theorem fresh_idle [Inhabited σ] : IdleFrom ops 0 (PipelineExecState.fresh ops) := by
  intro j op _ hop
  change (ops[j]?.map freshState).getD _ = _
  rw [hop]
  rfl

/-- **When a RUN task hands all rows to the sink.** However many operators a
pipeline has, however often each of them answers that it has more output, and
however many chunks the source gives: the executions of a worker's RUN task
terminate and duplicate, reorder or make up no row, and the rows in the sink are
the composition of the operators' full outputs exactly when no operator is
disturbed on any chunk taken from the source. -/
theorem runTasks_composed_iff [Inhabited σ] (n : Nat) (chunks : List (List Row)) :
    ∃ r, Arrives (fun fuel => runTasks ops fuel n chunks (PipelineExecState.fresh ops)) r ∧
      r.2.sinkRows.Sublist ((chunks.take (chunkBudget * n)).flatMap (composed ops)) ∧
      (r.2.sinkRows = (chunks.take (chunkBudget * n)).flatMap (composed ops) ↔
        ∀ X ∈ chunks.take (chunkBudget * n), Undisturbed ops false X) := by
  obtain ⟨r, harr, hsink⟩ := runTasks_arrives ops n chunks _ (fresh_idle ops)
  have hsink' : r.2.sinkRows = (chunks.take (chunkBudget * n)).flatMap (delivered ops false) := hsink
  have hsub : ∀ X ∈ chunks.take (chunkBudget * n), (delivered ops false X).Sublist (composed ops X) :=
    fun X _ => delivered_sublist ops false X
  refine ⟨r, harr, ?_, ?_⟩
  · rw [hsink']
    exact List.Sublist.flatMap_right _ hsub
  · rw [hsink', List.flatMap_eq_iff_of_sublist hsub]
    constructor
    · intro h X hX
      exact (delivered_eq_composed_iff ops false X).mp (h X hX)
    · intro h X hX
      exact (delivered_eq_composed_iff ops false X).mpr (h X hX)

end Task

/-! ## Streaming operators of the executor -/

section Operators
variable {Row : Type}

/-- `PhysicalProjection::Execute`, for the row function of its steps: a reading
takes the whole chunk. -/
def projection {σ : Type} [Inhabited σ] (f : Row → Row) : StreamingOperator σ Row where
  init := default
  read _ X := .exhausted (X.map f)
  remaining _ _ := 0
  read_nil _ := rfl
  full_rows h := by cases h
  full_remaining h := by cases h

/-- `PhysicalFilter::Execute`, for the condition its expressions compute. -/
def filter {σ : Type} [Inhabited σ] (p : Row → Bool) : StreamingOperator σ Row where
  init := default
  read _ X := .exhausted (X.filter p)
  remaining _ _ := 0
  read_nil _ := rfl
  full_rows h := by cases h
  full_remaining h := by cases h

/-- Where a cross product resumes: `probe_row_idx` and `build_row_idx`. -/
structure CrossProductCursor where
  probeRowIdx : Nat
  buildRowIdx : Nat
deriving DecidableEq

instance : Inhabited CrossProductCursor := ⟨⟨0, 0⟩⟩

section CrossProduct
variable {Build : Type} (build : List Build) (join : Row → Build → Row)

/-- The loop of `PhysicalCrossProduct::Execute` over the probe rows from the
cursor on: as many build rows as fit, then the next probe row. -/
def crossProductLoop : List Row → CrossProductCursor → List Row → List Row × CrossProductCursor
  | [], c, out => (out, c)
  | x :: xs, c, out =>
    if out.length < pipelineDefaultChunkSize then
      let batch := (build.drop c.buildRowIdx).take (pipelineDefaultChunkSize - out.length)
      let out := out ++ batch.map (join x)
      if build.length ≤ c.buildRowIdx + batch.length then
        crossProductLoop xs ⟨c.probeRowIdx + 1, 0⟩ out
      else (out, { c with buildRowIdx := c.buildRowIdx + batch.length })
    else (out, c)

def crossProductRead (c : CrossProductCursor) (X : List Row) : Reading CrossProductCursor Row :=
  let r := crossProductLoop build join (X.drop c.probeRowIdx) c []
  if X.length ≤ r.2.probeRowIdx then .exhausted r.1 else .full r.1 r.2

/-- How many pairs of a probe row and a build row are still to come, with one
step more for each probe row. -/
def crossProductRemaining (c : CrossProductCursor) (X : List Row) : Nat :=
  (X.length - c.probeRowIdx) * (build.length + 1) + (build.length - c.buildRowIdx)

/-- The loop goes through the probe rows, or stops because the chunk is full. -/
theorem crossProductLoop_stop (xs : List Row) (c : CrossProductCursor) (out : List Row) :
    (crossProductLoop build join xs c out).2.probeRowIdx = c.probeRowIdx + xs.length ∨
      pipelineDefaultChunkSize ≤ (crossProductLoop build join xs c out).1.length := by
  induction xs generalizing c out with
  | nil => exact Or.inl rfl
  | cons x xs ih =>
    unfold crossProductLoop
    split
    · dsimp only
      split
      · rcases ih ⟨c.probeRowIdx + 1, 0⟩ _ with h | h
        · left
          rw [h, List.length_cons]
          dsimp only
          omega
        · exact Or.inr h
      · right
        rename_i hroom hmore
        rw [List.length_take, List.length_drop] at hmore
        rw [List.length_append, List.length_map, List.length_take, List.length_drop]
        omega
    · exact Or.inr (Nat.le_of_not_lt ‹_›)

/-- The cursor moves on: to a later probe row, or to a later build row of the same one. -/
theorem crossProductLoop_advance (xs : List Row) (c : CrossProductCursor) (out : List Row) :
    c.probeRowIdx < (crossProductLoop build join xs c out).2.probeRowIdx ∨
      (crossProductLoop build join xs c out).2.probeRowIdx = c.probeRowIdx ∧
      (c.buildRowIdx < (crossProductLoop build join xs c out).2.buildRowIdx ∧
          c.buildRowIdx < build.length ∨
        xs = [] ∨ pipelineDefaultChunkSize ≤ out.length) := by
  cases xs with
  | nil => exact Or.inr ⟨rfl, Or.inr (Or.inl rfl)⟩
  | cons x xs =>
    unfold crossProductLoop
    split
    · dsimp only
      split
      · left
        rename_i hroom hend
        have hmono : ∀ (ys : List Row) (d : CrossProductCursor) (o : List Row),
            d.probeRowIdx ≤ (crossProductLoop build join ys d o).2.probeRowIdx := by
          intro ys
          induction ys with
          | nil => exact fun _ _ => Nat.le_refl _
          | cons y ys ih =>
            intro d o
            unfold crossProductLoop
            split
            · dsimp only
              split
              · exact le_trans (Nat.le_succ _) (ih ⟨d.probeRowIdx + 1, 0⟩ _)
              · exact Nat.le_refl _
            · exact Nat.le_refl _
        exact hmono xs ⟨c.probeRowIdx + 1, 0⟩ _
      · refine Or.inr ⟨rfl, Or.inl ?_⟩
        rename_i hroom hmore
        dsimp only
        rw [List.length_take, List.length_drop] at hmore ⊢
        omega
    · exact Or.inr ⟨rfl, Or.inr (Or.inr (by omega))⟩

/-- `PhysicalCrossProduct::Execute`, for the finalized build rows. -/
def crossProduct (build : List Build) (join : Row → Build → Row) :
    StreamingOperator CrossProductCursor Row where
  init := default
  read := crossProductRead build join
  remaining := crossProductRemaining build
  read_nil c := by
    unfold crossProductRead
    rw [List.drop_nil]
    exact if_pos (Nat.zero_le _)
  full_rows := by
    intro c X rows c' h
    unfold crossProductRead at h
    dsimp only at h
    split at h
    · cases h
    · rename_i hlt
      cases h
      rcases crossProductLoop_stop build join (X.drop c.probeRowIdx) c [] with hend | hfull
      · rw [List.length_drop] at hend
        omega
      · intro hnil
        rw [hnil] at hfull
        cases hfull
  full_remaining := by
    intro c X rows c' h
    unfold crossProductRead at h
    dsimp only at h
    split at h
    · cases h
    · rename_i hlt
      cases h
      unfold crossProductRemaining
      rcases crossProductLoop_advance build join (X.drop c.probeRowIdx) c []
        with hprobe | ⟨hsame, hbuild | hnil | hfull⟩
      · have hstep : (X.length - (crossProductLoop build join (X.drop c.probeRowIdx) c []).2.probeRowIdx
            + 1) * (build.length + 1) ≤ (X.length - c.probeRowIdx) * (build.length + 1) :=
          Nat.mul_le_mul_right _ (by omega)
        rw [Nat.add_mul, Nat.one_mul] at hstep
        omega
      · rw [hsame]
        omega
      · have hlen := congrArg List.length hnil
        rw [List.length_drop, List.length_nil] at hlen
        omega
      · cases hfull

end CrossProduct

/-- A projection, a cross product with 2049 build rows and a projection over it. -/
def crossProductPipeline : List (StreamingOperator CrossProductCursor Nat) :=
  [projection id, crossProduct (List.range 2049) fun _ b => b, projection id]

/-- **Rows are lost between two operators**: one source row makes 2049 rows,
2048 of them reach the sink. -/
theorem runTasks_loses_row :
    (∃ r, Arrives (fun fuel => runTasks crossProductPipeline fuel 1 [[0]]
        (PipelineExecState.fresh crossProductPipeline)) r ∧ r.2.sinkRows = List.range 2048) ∧
      composed crossProductPipeline [0] = List.range 2049 := by
  have hdelivered : delivered crossProductPipeline false [0] = List.range 2048 := by decide +kernel
  refine ⟨?_, by decide +kernel⟩
  obtain ⟨r, harr, hsink⟩ := runTasks_arrives crossProductPipeline 1 [[0]] _ (fresh_idle _)
  refine ⟨r, harr, hsink.trans ?_⟩
  simp only [chunkBudget, Nat.mul_one, List.take_succ_cons, List.take_nil, List.flatMap_cons,
    List.flatMap_nil, List.append_nil, hdelivered, PipelineExecState.fresh, List.nil_append]

end Operators

end DrainOperators
end PgYaap
