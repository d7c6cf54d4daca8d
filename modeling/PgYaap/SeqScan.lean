import PgYaap.FilterScratchExact

/-! # The sequential scan

A worker reads the pages that the read stream hands to it. Of each page it keeps the offsets of
the visible tuples and a cursor into them, and a call of `GetData` goes on from there until the
chunk is full or no page is left. A tuple is decoded into the scratch row for the filter, which
the next tuple uses again, and a tuple that passes is decoded into the chunk. -/
namespace PgYaap
namespace SeqScan

open FilterProgram SimpleFilterSteps HeapTuples FilterScratch

/-! ## Pages -/

/-- A line pointer of a page: unused, redirected or dead, or a tuple with its visibility
(`HeapTupleSatisfiesVisibility`). -/
inductive LinePointer
  | other
  | normal (tuple : HeapTuple) (visible : Bool)

/-- A page. `allVisible` is `PageIsAllVisible` under a snapshot that is not taken during
recovery; the server sets it where every tuple is visible. -/
structure Page where
  lines : List LinePointer
  allVisible : Bool
  visible_of_allVisible : allVisible = true → ∀ tuple visible,
    LinePointer.normal tuple visible ∈ lines → visible = true

/-- The loop of `PgYaapCollectPageTuples`. -/
def collectFrom (allVisible : Bool) : (lineoff : Nat) → List LinePointer → List Nat
  | _, [] => []
  | lineoff, .other :: lines => collectFrom allVisible (lineoff + 1) lines
  | lineoff, .normal _ visible :: lines =>
    if allVisible || visible then lineoff :: collectFrom allVisible (lineoff + 1) lines
    else collectFrom allVisible (lineoff + 1) lines

/-- `PgYaapCollectPageTuples`: the offsets of the tuples that are visible; the first line has
offset one. -/
def collectPageTuples (page : Page) : List Nat := collectFrom page.allVisible 1 page.lines

/-- `PageGetItem`. -/
def Page.getItem (page : Page) (offnum : Nat) : Option HeapTuple :=
  match page.lines[offnum - 1]? with
  | some (.normal tuple _) => some tuple
  | _ => none

/-! ## The state of a worker -/

/-- `SeqScanLocalState`. The stream has the pages that are still handed out to the worker,
`vistuples`, `ntuples` and `cbuf` are those of the scan descriptor. -/
structure SeqScanLocalState where
  stream : List Page
  cbuf : Option Page
  vistuples : List Nat
  ntuples : Nat
  pageVisibleIndex : Nat
  exhausted : Bool
  filterChunk : FilterChunk
  filterBoolValues : Regs

/-- `ReleaseSeqScanPage`. -/
def releaseSeqScanPage (l : SeqScanLocalState) : SeqScanLocalState :=
  { l with cbuf := none, ntuples := 0, pageVisibleIndex := 0 }

/-- `LoadNextSeqScanPage`. -/
def loadNextSeqScanPage (l : SeqScanLocalState) : Bool × SeqScanLocalState :=
  match (releaseSeqScanPage l).stream with
  | [] => (false, releaseSeqScanPage l)
  | page :: stream =>
    (true, { releaseSeqScanPage l with
      stream := stream
      cbuf := some page
      vistuples := collectPageTuples page
      ntuples := (collectPageTuples page).length })

theorem stream_loadNext {l l' : SeqScanLocalState} (h : loadNextSeqScanPage l = (true, l')) :
    l'.stream.length < l.stream.length := by
  unfold loadNextSeqScanPage at h
  split at h
  · cases h
  · next page stream hstream =>
    cases h
    rw [show l.stream = page :: stream from hstream]
    exact Nat.lt_succ_self _

/-- `EnsureSeqScanPageLoaded`. -/
def ensureSeqScanPageLoaded (l : SeqScanLocalState) : Bool × SeqScanLocalState :=
  if l.cbuf.isSome ∧ l.pageVisibleIndex < l.ntuples then (true, l)
  else
    match _hload : loadNextSeqScanPage l with
    | (false, l') => (false, l')
    | (true, l') => ensureSeqScanPageLoaded l'
termination_by l.stream.length
decreasing_by exact stream_loadNext _hload

theorem ensure_of_page {l l' : SeqScanLocalState}
    (hloaded : ¬(l.cbuf.isSome ∧ l.pageVisibleIndex < l.ntuples))
    (hload : loadNextSeqScanPage l = (true, l')) :
    ensureSeqScanPageLoaded l = ensureSeqScanPageLoaded l' := by
  rw [ensureSeqScanPageLoaded, if_neg hloaded]
  split
  · next l₂ hload₂ =>
    rw [hload] at hload₂
    cases hload₂
  · next l₂ hload₂ =>
    rw [hload] at hload₂
    cases hload₂
    rfl

theorem ensure_of_none {l l' : SeqScanLocalState}
    (hloaded : ¬(l.cbuf.isSome ∧ l.pageVisibleIndex < l.ntuples))
    (hload : loadNextSeqScanPage l = (false, l')) :
    ensureSeqScanPageLoaded l = (false, l') := by
  rw [ensureSeqScanPageLoaded, if_neg hloaded]
  split
  · next l₂ hload₂ =>
    rw [hload] at hload₂
    cases hload₂
    rfl
  · next l₂ hload₂ =>
    rw [hload] at hload₂
    cases hload₂

theorem ensure_of_loaded {l : SeqScanLocalState}
    (hloaded : l.cbuf.isSome ∧ l.pageVisibleIndex < l.ntuples) :
    ensureSeqScanPageLoaded l = (true, l) := by
  rw [ensureSeqScanPageLoaded, if_pos hloaded]

/-- The cursor behind the tuple it is at. -/
def advance (l : SeqScanLocalState) : SeqScanLocalState :=
  { l with pageVisibleIndex := l.pageVisibleIndex + 1 }

/-- How many offsets are left. -/
def remaining (l : SeqScanLocalState) : Nat :=
  (l.ntuples - l.pageVisibleIndex) + (l.stream.map fun page => (collectPageTuples page).length).sum

theorem remaining_loadNext {l l' : SeqScanLocalState} (h : loadNextSeqScanPage l = (true, l')) :
    remaining l' ≤ remaining l := by
  unfold loadNextSeqScanPage at h
  split at h
  · cases h
  · next page stream hstream =>
    cases h
    rw [remaining, remaining, show l.stream = page :: stream from hstream, List.map_cons,
      List.sum_cons]
    show (collectPageTuples page).length - 0 + (stream.map _).sum ≤ _
    omega

theorem remaining_ensure {l l' : SeqScanLocalState} (h : ensureSeqScanPageLoaded l = (true, l')) :
    remaining (advance l') < remaining l := by
  induction l using ensureSeqScanPageLoaded.induct with
  | case1 l hloaded =>
    rw [ensure_of_loaded hloaded] at h
    have hsame := (Prod.mk.inj h).2
    subst hsame
    rw [remaining, remaining]
    show l.ntuples - (l.pageVisibleIndex + 1) + (l.stream.map _).sum < _
    have hlt := hloaded.2
    omega
  | case2 l hloaded l₁ hload =>
    rw [ensure_of_none hloaded hload] at h
    cases h
  | case3 l hloaded l₁ hload ih =>
    rw [ensure_of_page hloaded hload] at h
    exact (ih h).trans_le (remaining_loadNext hload)

/-! ## The scan -/

/-- The input slots a step reads, with the arrays. -/
def stepReads (step : Step) : List (Nat × ScratchArray) :=
  match step.op with
  | .int32CmpConst => [(step.leftIdx, .int32)]
  | .int64CmpConst => [(step.leftIdx, .int64)]
  | .int32CmpVar => [(step.leftIdx, .int32), (step.rightIdx, .int32)]
  | .int64CmpVar => [(step.leftIdx, .int64), (step.rightIdx, .int64)]
  | .stringEqConst | .stringNeConst | .stringPrefixLike | .stringContainsLike | .stringSqlLike =>
    [(step.leftIdx, .string)]
  | .boolAnd | .boolOr | .boolNot => []

/-- The registers a step reads. -/
def stepRegs (step : Step) : List Nat :=
  match step.op with
  | .boolAnd | .boolOr => [step.leftIdx, step.rightIdx]
  | .boolNot => [step.leftIdx]
  | _ => []

/-- The steps read registers that are set by then. -/
def StepsRead : List Step → (set : Nat → Prop) → Prop
  | [], _ => True
  | step :: steps, set =>
    (∀ r ∈ stepRegs step, set r) ∧ StepsRead steps fun r => set r ∨ r = step.outBoolReg

/-- The registers that are set behind some steps. -/
def setBehind (steps : List Step) (set : Nat → Prop) : Nat → Prop :=
  fun r => set r ∨ ∃ step ∈ steps, r = step.outBoolReg

/-- So do the steps of the expressions, and each expression has its result. -/
def ExprsRead (steps : List Step) : List FilterExprDesc → (set : Nat → Prop) → Prop
  | [], _ => True
  | expr :: exprs, set =>
    let here := steps.extract expr.firstStepIdx ((expr.firstStepIdx + expr.nSteps) % 2 ^ 16)
    StepsRead here set ∧ setBehind here set expr.outputBoolReg ∧
      ExprsRead steps exprs (setBehind here set)

/-- A filter as the translator publishes it: a filter with expressions has inputs and steps, its
tests read inputs from the arrays they are bound to, and its connectives registers that are set. -/
structure FilterFits (inputs : List FilterInputDesc) (prog : SimpleFilterSteps.Program) : Prop where
  nonempty : prog.exprs ≠ [] → inputs ≠ [] ∧ prog.steps ≠ []
  reads : ∀ step ∈ prog.steps, ∀ x ∈ stepReads step, ∃ input, inputs[x.1]? = some input ∧
    bindingArray input.decodeKind = some x.2
  regs : ExprsRead prog.steps prog.exprs fun r => r < requiredBoolRegs prog.exprs

/-- A scan: the relation, the filter and the columns of the output schema. -/
structure PhysicalSeqScan where
  rel : List RelationColumn
  filterInputs : List FilterInputDesc
  filter : SimpleFilterSteps.Program
  filterBoolRegs : Nat
  projection : DeformProgram
  published : Published (scanSchema rel) filterInputs
  fits : FilterFits filterInputs filter

/-- A row of a chunk, by the columns of the output schema. -/
abbrev ScanRow := List (Nat × Option Datum)

section Scan

variable (detoast : List UInt8 → List UInt8) (S : PhysicalSeqScan)

/-- `has_filter`. -/
def hasFilter : Bool :=
  !S.filterInputs.isEmpty && !S.filter.exprs.isEmpty && !S.filter.steps.isEmpty

/-- The loop over the expressions of the filter, with the registers it leaves. -/
def scanExprs (prog : SimpleFilterSteps.Program) (filterBoolRegs : Nat) (chunk : FilterChunk) :
    List FilterExprDesc → Regs → Except String (Bool × Regs)
  | [], regs => .ok (true, regs)
  | expr :: exprs, regs =>
    let exprEnd := (expr.firstStepIdx + expr.nSteps) % 2 ^ 16
    if prog.steps.length < exprEnd then
      .error "pg_yaap: filter expression step range overflow"
    else do
      let regs ← (prog.steps.extract expr.firstStepIdx exprEnd).foldlM
        (scanCopy.evalFilterStep chunk 0 prog.stringConsts) regs
      if filterBoolRegs ≤ expr.outputBoolReg || !regs expr.outputBoolReg then .ok (false, regs)
      else scanExprs prog filterBoolRegs chunk exprs regs

/-- The filter on a tuple, with the scratch row and the registers it leaves to the next one. -/
def filterTuple (chunk : FilterChunk) (regs : Regs) (t : HeapTuple) :
    Except String (Bool × FilterChunk × Regs) :=
  if hasFilter S then do
    let chunk ← filterDeform detoast S.rel S.filterInputs t chunk
    match isSimpleFilterStep S.filter.exprs S.filter.steps with
    | some step => do
      let pass ← evalSimpleScanFilter S.filter step chunk
      .ok (pass, chunk, regs)
    | none => do
      let (pass, regs) ← scanExprs S.filter S.filterBoolRegs chunk S.filter.exprs
        (clearRegs (requiredBoolRegs S.filter.exprs) regs)
      .ok (pass, chunk, regs)
  else .ok (true, chunk, regs)

/-- `AppendProjectedTupleViaDeformer`: what the deformer writes into the row of the chunk. -/
def projectTuple (t : HeapTuple) : Except String ScanRow :=
  (t.deform (decodeNumeric detoast) (descriptor S.rel) S.projection).mapM fun w =>
    match w.cell with
    | none => .ok (w.dstCol, none)
    | some decoded => decoded.map fun d => (w.dstCol, some d)

/-- A tuple in the loop of `GetData`: the row it adds, if any. -/
def scanTuple (chunk : FilterChunk) (regs : Regs) (t : HeapTuple) :
    Except String (Option ScanRow × FilterChunk × Regs) := do
  let (pass, chunk, regs) ← filterTuple detoast S chunk regs t
  if pass then do
    let row ← projectTuple detoast S t
    .ok (some row, chunk, regs)
  else .ok (none, chunk, regs)

/-- `PIPELINE_DEFAULT_CHUNK_SIZE`. -/
def pipelineDefaultChunkSize : Nat := 2048

/-- The loop of `GetData`; no cancellation is requested. -/
def getDataLoop (out : List ScanRow) (l : SeqScanLocalState) :
    Except String (List ScanRow × SeqScanLocalState) :=
  if pipelineDefaultChunkSize ≤ out.length then .ok (out, l)
  else
    match _hload : ensureSeqScanPageLoaded l with
    | (false, l') => .ok (out, { l' with exhausted := true })
    | (true, l') =>
      match l'.cbuf.bind fun page => page.getItem (l'.vistuples.getD l'.pageVisibleIndex 0) with
      | none => getDataLoop out (advance l')
      | some t =>
        match scanTuple detoast S l'.filterChunk l'.filterBoolValues t with
        | .error e => .error e
        | .ok (row, chunk, regs) =>
          getDataLoop (out ++ row.toList)
            { advance l' with filterChunk := chunk, filterBoolValues := regs }
termination_by remaining l
decreasing_by
  · exact remaining_ensure _hload
  · exact remaining_ensure _hload

section Loop

variable {detoast S} {out : List ScanRow} {l l' : SeqScanLocalState} {t : HeapTuple}

/-- A turn of the loop with a tuple that raises no error. -/
theorem getDataLoop_next (hfull : ¬pipelineDefaultChunkSize ≤ out.length)
    (hload : ensureSeqScanPageLoaded l = (true, l'))
    (ht : (l'.cbuf.bind fun page =>
      page.getItem (l'.vistuples.getD l'.pageVisibleIndex 0)) = some t)
    {row : Option ScanRow} {chunk : FilterChunk} {regs : Regs}
    (hscan : scanTuple detoast S l'.filterChunk l'.filterBoolValues t = .ok (row, chunk, regs)) :
    getDataLoop detoast S out l = getDataLoop detoast S (out ++ row.toList)
      { advance l' with filterChunk := chunk, filterBoolValues := regs } := by
  rw [getDataLoop, if_neg hfull]
  split
  · next l₁ hload₁ =>
    rw [hload] at hload₁
    cases hload₁
  · next l₁ hload₁ =>
    rw [hload] at hload₁
    cases hload₁
    simp only [ht, hscan]

/-- One with a tuple that raises one. -/
theorem getDataLoop_error (hfull : ¬pipelineDefaultChunkSize ≤ out.length)
    (hload : ensureSeqScanPageLoaded l = (true, l'))
    (ht : (l'.cbuf.bind fun page =>
      page.getItem (l'.vistuples.getD l'.pageVisibleIndex 0)) = some t) {e : String}
    (hscan : scanTuple detoast S l'.filterChunk l'.filterBoolValues t = .error e) :
    getDataLoop detoast S out l = .error e := by
  rw [getDataLoop, if_neg hfull]
  split
  · next l₁ hload₁ =>
    rw [hload] at hload₁
    cases hload₁
  · next l₁ hload₁ =>
    rw [hload] at hload₁
    cases hload₁
    simp only [ht, hscan]

/-- The turn that finds none. -/
theorem getDataLoop_none (hfull : ¬pipelineDefaultChunkSize ≤ out.length)
    (hload : ensureSeqScanPageLoaded l = (false, l')) :
    getDataLoop detoast S out l = .ok (out, { l' with exhausted := true }) := by
  rw [getDataLoop, if_neg hfull]
  split
  · next l₁ hload₁ =>
    rw [hload] at hload₁
    cases hload₁
    rfl
  · next l₁ hload₁ =>
    rw [hload] at hload₁
    cases hload₁

end Loop

/-- `SourceResultType`. -/
inductive SourceResultType
  | haveMoreOutput
  | finished
  deriving DecidableEq

/-- The checks of the first call. -/
def checkDescriptors : Except String Unit :=
  if filterMaxBoolRegs < S.filterBoolRegs then
    .error "pg_yaap: PhysicalSeqScan filter bool register overflow (%u)"
  else if hasFilter S && (buildFilterDeformProgram S.filterInputs).isNone then
    .error "pg_yaap: failed to build SeqScan filter deformer"
  else .ok ()

/-- **`PhysicalSeqScan::GetData`.** -/
def getData (l : SeqScanLocalState) :
    Except String (SourceResultType × List ScanRow × SeqScanLocalState) :=
  if l.exhausted then .ok (.finished, [], l)
  else do
    checkDescriptors S
    let (out, l) ← getDataLoop detoast S [] l
    if pipelineDefaultChunkSize ≤ out.length then .ok (.haveMoreOutput, out, l)
    else
      .ok (if 0 < out.length then .haveMoreOutput else .finished, out, releaseSeqScanPage l)

/-- `GetLocalSourceState`, with what is in the memory of the scratch row and the registers. -/
def initial (totalBlocks : Nat) (stream : List Page) (chunk : FilterChunk) (regs : Regs) :
    SeqScanLocalState where
  stream := stream
  cbuf := none
  vistuples := []
  ntuples := 0
  pageVisibleIndex := 0
  exhausted := totalBlocks = 0
  filterChunk := chunk
  filterBoolValues := regs

/-- The chunks that successive calls return before `FINISHED`. -/
inductive Drains : SeqScanLocalState → List (List ScanRow) → Prop
  | finished {l l' : SeqScanLocalState} {out : List ScanRow} :
    getData detoast S l = .ok (.finished, out, l') → Drains l []
  | more {l l' : SeqScanLocalState} {out : List ScanRow} {chunks : List (List ScanRow)} :
    getData detoast S l = .ok (.haveMoreOutput, out, l') → Drains l' chunks →
      Drains l (out :: chunks)

end Scan

/-! ## What the scan is for -/

/-- The visible tuples of a page, in line order. -/
def visibleTuples (page : Page) : List HeapTuple :=
  page.lines.filterMap fun
    | .normal tuple true => some tuple
    | _ => none

/-- The answer of the filter on a tuple that is decoded into cleared memory. -/
def answer (detoast : List UInt8 → List UInt8) (S : PhysicalSeqScan) (t : HeapTuple) :
    Except String Bool :=
  (filterTuple detoast S zeroChunk (fun _ => false) t).map Prod.fst

/-- A tuple passes the filter. -/
def passes (detoast : List UInt8 → List UInt8) (S : PhysicalSeqScan) (t : HeapTuple) : Bool :=
  match answer detoast S t with
  | .ok pass => pass
  | .error _ => false

/-- A row is the projection of a tuple. -/
def Projects (detoast : List UInt8 → List UInt8) (S : PhysicalSeqScan) (t : HeapTuple)
    (row : ScanRow) : Prop :=
  projectTuple detoast S t = .ok row

/-- Rows are the projections of the tuples of some pages that pass, in page and line order. -/
def RowsOf (detoast : List UInt8 → List UInt8) (S : PhysicalSeqScan) (pages : List Page)
    (rows : List ScanRow) : Prop :=
  List.Forall₂ (Projects detoast S) ((pages.flatMap visibleTuples).filter (passes detoast S)) rows

/-- The filter and the projection raise no error on the tuples of some pages. -/
def NoError (detoast : List UInt8 → List UInt8) (S : PhysicalSeqScan) (pages : List Page) : Prop :=
  ∀ t ∈ pages.flatMap visibleTuples, ∃ pass, answer detoast S t = .ok pass ∧
    (pass = true → ∃ row, Projects detoast S t row)

/-- **The slots of the inputs are wholly written**: every column is decoded into the array it is
stored for, so none of four bytes into a slot of eight. -/
def WhollyWritten (inputs : List FilterInputDesc) : Prop :=
  ∀ input ∈ inputs, bindingArray input.decodeKind = bindingArray input.sourceDecodeKind

end SeqScan
end PgYaap
