import PgYaap.RelatedRuns
import PgYaap.SeqScan

/-! # The rows of a sequential scan

The filter answers a tuple the same whatever the tuple before left in the scratch row, where every
column fills the slot it is decoded into. The cursor loses no tuple and comes to none twice: what
is left before a call is what the call takes off and what is left behind it. So the chunks of a
worker have the rows of its pages in order, and those of all workers the rows of the relation. -/
namespace PgYaap
namespace SeqScan

open FilterProgram SimpleFilterSteps HeapTuples FilterScratch RelatedRuns

/-! ## What is left in the scratch row does not matter -/

/-- Two scratch rows have the same in a slot of an array. -/
def SameValue (c c' : FilterChunk) (slot : Nat) : ScratchArray → Prop
  | .int32 => c.int32 slot 0 = c'.int32 slot 0
  | .int64 => c.int64 slot 0 = c'.int64 slot 0
  | .string => c.string slot 0 = c'.string slot 0 ∧ c.arena = c'.arena

/-- A slot is NULL in both scratch rows, or has the same value in both. -/
def SameCell (c c' : FilterChunk) (slot : Nat) (array : ScratchArray) : Prop :=
  (c.nulls slot 0 = true ∧ c'.nulls slot 0 = true) ∨
    (c.nulls slot 0 = false ∧ c'.nulls slot 0 = false ∧ SameValue c c' slot array)

section Steps

variable {c c' : FilterChunk} {regs regs' : Regs} {step : Step} {consts : Option ByteMemory}

theorem SameValue.stringPtr {slot : Nat} (h : SameValue c c' slot .string) :
    c.stringPtr slot 0 = c'.stringPtr slot 0 := by
  obtain ⟨hstring, harena⟩ := h
  rw [FilterChunk.stringPtr, FilterChunk.stringPtr, hstring, harena]

/-- A step answers alike on the same inputs and registers. -/
theorem stepResult_congr (hcells : ∀ x ∈ stepReads step, SameCell c c' x.1 x.2)
    (hregs : ∀ r ∈ stepRegs step, regs r = regs' r) :
    scanCopy.stepResult c 0 consts regs step = scanCopy.stepResult c' 0 consts regs' step := by
  unfold stepReads at hcells
  unfold stepRegs at hregs
  unfold Copy.stepResult
  cases hop : step.op with
  | int32CmpConst =>
    rw [hop] at hcells
    rcases hcells _ List.mem_cons_self with ⟨hc, hc'⟩ | ⟨hc, hc', hvalue⟩
    · simp [hc, hc']
    · have hvalue : c.int32 step.leftIdx 0 = c'.int32 step.leftIdx 0 := hvalue
      simp [hc, hc', hvalue]
  | int64CmpConst =>
    rw [hop] at hcells
    rcases hcells _ List.mem_cons_self with ⟨hc, hc'⟩ | ⟨hc, hc', hvalue⟩
    · simp [hc, hc']
    · have hvalue : c.int64 step.leftIdx 0 = c'.int64 step.leftIdx 0 := hvalue
      simp [hc, hc', hvalue]
  | int32CmpVar =>
    rw [hop] at hcells
    rcases hcells _ List.mem_cons_self with ⟨hl, hl'⟩ | ⟨hl, hl', hleft⟩
    · simp [hl, hl']
    rcases hcells _ (List.mem_cons_of_mem _ List.mem_cons_self) with ⟨hr, hr'⟩ | ⟨hr, hr', hright⟩
    · simp [hr, hr']
    · have hleft : c.int32 step.leftIdx 0 = c'.int32 step.leftIdx 0 := hleft
      have hright : c.int32 step.rightIdx 0 = c'.int32 step.rightIdx 0 := hright
      simp [hl, hl', hr, hr', hleft, hright]
  | int64CmpVar =>
    rw [hop] at hcells
    rcases hcells _ List.mem_cons_self with ⟨hl, hl'⟩ | ⟨hl, hl', hleft⟩
    · simp [hl, hl']
    rcases hcells _ (List.mem_cons_of_mem _ List.mem_cons_self) with ⟨hr, hr'⟩ | ⟨hr, hr', hright⟩
    · simp [hr, hr']
    · have hleft : c.int64 step.leftIdx 0 = c'.int64 step.leftIdx 0 := hleft
      have hright : c.int64 step.rightIdx 0 = c'.int64 step.rightIdx 0 := hright
      simp [hl, hl', hr, hr', hleft, hright]
  | stringEqConst | stringNeConst | stringPrefixLike | stringContainsLike | stringSqlLike =>
    rw [hop] at hcells
    rcases hcells _ List.mem_cons_self with ⟨hc, hc'⟩ | ⟨hc, hc', hvalue⟩
    · simp [hc, hc']
    · have hptr := SameValue.stringPtr hvalue
      have hvalue : c.string step.leftIdx 0 = c'.string step.leftIdx 0 := hvalue.1
      simp [hc, hc', hvalue, hptr]
  | boolAnd | boolOr =>
    rw [hop] at hregs
    have hleft := hregs _ List.mem_cons_self
    have hright := hregs _ (List.mem_cons_of_mem _ List.mem_cons_self)
    simp only [hleft, hright]
  | boolNot =>
    rw [hop] at hregs
    have hleft := hregs _ List.mem_cons_self
    simp only [hleft]

/-- Registers that agree on some numbers. -/
def RegsAgree (set : Nat → Prop) (regs regs' : Regs) : Prop := ∀ r, set r → regs r = regs' r

theorem setBehind_cons {steps : List Step} {set : Nat → Prop} {r : Nat} :
    setBehind (step :: steps) set r ↔ setBehind steps (fun r => set r ∨ r = step.outBoolReg) r := by
  simp only [setBehind, List.mem_cons, exists_eq_or_imp, or_assoc]

/-- The steps of an expression answer alike. -/
theorem foldlM_congr {steps : List Step} {set : Nat → Prop}
    (hcells : ∀ step ∈ steps, ∀ x ∈ stepReads step, SameCell c c' x.1 x.2)
    (hread : StepsRead steps set) (hregs : RegsAgree set regs regs') :
    Alike (RegsAgree (setBehind steps set))
      (steps.foldlM (scanCopy.evalFilterStep c 0 consts) regs)
      (steps.foldlM (scanCopy.evalFilterStep c' 0 consts) regs') := by
  induction steps generalizing set regs regs' with
  | nil =>
    refine .ok fun r hr => ?_
    rcases hr with hr | ⟨step, hmem, -⟩
    · exact hregs r hr
    · exact nomatch hmem
  | cons step steps ih =>
    rw [List.foldlM_cons, List.foldlM_cons]
    have hresult := @stepResult_congr c c' regs regs' step consts (hcells step List.mem_cons_self)
      fun r hr => hregs r (hread.1 r hr)
    have hstep : Alike (RegsAgree fun r => set r ∨ r = step.outBoolReg)
        (scanCopy.evalFilterStep c 0 consts regs step)
        (scanCopy.evalFilterStep c' 0 consts regs' step) := by
      unfold Copy.evalFilterStep
      refine (Alike.of_eq hresult).bind fun result _ heq => heq ▸ .ok fun r hr => ?_
      rcases eq_or_ne r step.outBoolReg with rfl | hne
      · rw [Function.update_self, Function.update_self]
      · rw [Function.update_of_ne hne, Function.update_of_ne hne]
        exact hregs r (hr.resolve_right hne)
    refine hstep.bind fun a b hab => (ih (fun s hs => hcells s (List.mem_cons_of_mem _ hs))
      hread.2 hab).mono fun a b hab r hr => hab r (setBehind_cons.1 hr)

/-- The loop over the expressions answers alike. -/
theorem scanExprs_congr {prog : SimpleFilterSteps.Program} {filterBoolRegs : Nat}
    {exprs : List FilterExprDesc} {set : Nat → Prop}
    (hcells : ∀ step ∈ prog.steps, ∀ x ∈ stepReads step, SameCell c c' x.1 x.2)
    (hread : ExprsRead prog.steps exprs set) (hregs : RegsAgree set regs regs') :
    Alike (fun a b => a.1 = b.1) (scanExprs prog filterBoolRegs c exprs regs)
      (scanExprs prog filterBoolRegs c' exprs regs') := by
  induction exprs generalizing set regs regs' with
  | nil => exact .ok rfl
  | cons expr exprs ih =>
    obtain ⟨hsteps, hout, hrest⟩ := hread
    rw [scanExprs, scanExprs]
    split
    · exact .error _
    refine (foldlM_congr (fun step hstep => hcells step ?_) hsteps hregs).bind fun a b hab => ?_
    · rw [List.extract_eq_take_drop] at hstep
      exact List.mem_of_mem_drop (List.mem_of_mem_take hstep)
    · have hreg : a expr.outputBoolReg = b expr.outputBoolReg := hab _ hout
      rw [hreg]
      split
      · exact .ok rfl
      · exact ih hrest hab

end Steps

/-! ## The scratch row of a tuple -/

/-- The array a value goes into. -/
def arrayOf : Datum → Option ScratchArray
  | .int32 _ => some .int32
  | .int64 _ => some .int64
  | .stringRef _ => some .string
  | .double _ => none

/-- What is written goes into an array. -/
def OfArray (array : ScratchArray) (cell : Option (Except String Datum)) : Prop :=
  ∀ d, cell = some (.ok d) → arrayOf d = some array

/-- A slot of a scratch row is as before. -/
structure Kept (c d : FilterChunk) (slot : Nat) : Prop where
  nulls : d.nulls slot = c.nulls slot
  int32 : d.int32 slot = c.int32 slot
  int64 : d.int64 slot = c.int64 slot
  string : d.string slot = c.string slot

section Deform

variable {c c' d d' : FilterChunk} {bindings : List ScratchArray} {w : Write}
  {writes : List Write}

theorem SameCell.kept {slot : Nat} {array : ScratchArray} (h : SameCell c c' slot array)
    (hkept : Kept c d slot) (hkept' : Kept c' d' slot)
    (harena : c.arena = c'.arena → d.arena = d'.arena) : SameCell d d' slot array := by
  rw [SameCell, hkept.nulls, hkept'.nulls]
  refine h.imp_right fun ⟨hc, hc', hvalue⟩ => ⟨hc, hc', ?_⟩
  cases array with
  | int32 =>
    show d.int32 slot 0 = d'.int32 slot 0
    rw [hkept.int32, hkept'.int32]
    exact hvalue
  | int64 =>
    show d.int64 slot 0 = d'.int64 slot 0
    rw [hkept.int64, hkept'.int64]
    exact hvalue
  | string =>
    refine ⟨?_, harena hvalue.2⟩
    rw [hkept.string, hkept'.string]
    exact hvalue.1

/-- Two scratch rows behind a write: alike in its slot, and elsewhere where they were. -/
def AlikeBehind (c c' : FilterChunk) (slot : Nat) (array : ScratchArray) (d d' : FilterChunk) :
    Prop :=
  SameCell d d' slot array ∧ (∀ j, j ≠ slot → ∀ a, SameCell c c' j a → SameCell d d' j a) ∧
    (c.arena = c'.arena → d.arena = d'.arena)

theorem store_stringRef {slot : Nat} {bytes : List UInt8} :
    store c slot .string (.stringRef bytes) = c.put slot (.stringRef bytes) := by
  rw [store]
  all_goals intros
  all_goals contradiction

/-- One write into two scratch rows. -/
theorem storeWrite_alike (hof : OfArray (bindings.getD w.dstCol .int32) w.cell)
    (harena : bindings.getD w.dstCol .int32 = .string → c.arena = c'.arena) :
    Alike (AlikeBehind c c' w.dstCol (bindings.getD w.dstCol .int32)) (storeWrite bindings c w)
      (storeWrite bindings c' w) := by
  obtain ⟨slot, cell⟩ := w
  rcases cell with - | e | v
  · refine .ok ⟨.inl ⟨setFirst_self _ _ _, setFirst_self _ _ _⟩, fun j hj a h => ?_, id⟩
    exact h.kept ⟨setFirst_of_ne _ _ hj, rfl, rfl, rfl⟩ ⟨setFirst_of_ne _ _ hj, rfl, rfl, rfl⟩ id
  · exact .error e
  · have harray := hof v rfl
    show Alike _ (store _ slot (bindings.getD slot .int32) v) (store _ slot _ v)
    dsimp only at harena ⊢
    cases v with
    | int32 v =>
      rw [← Option.some.inj harray]
      refine .ok ⟨.inr ⟨setFirst_self _ _ _, setFirst_self _ _ _, ?_⟩, fun j hj a h => ?_, id⟩
      · exact (setFirst_self _ _ _).trans (setFirst_self _ _ _).symm
      · exact h.kept ⟨setFirst_of_ne _ _ hj, setFirst_of_ne _ _ hj, rfl, rfl⟩
          ⟨setFirst_of_ne _ _ hj, setFirst_of_ne _ _ hj, rfl, rfl⟩ id
    | int64 v =>
      rw [← Option.some.inj harray]
      refine .ok ⟨.inr ⟨setFirst_self _ _ _, setFirst_self _ _ _, ?_⟩, fun j hj a h => ?_, id⟩
      · exact (setFirst_self _ _ _).trans (setFirst_self _ _ _).symm
      · exact h.kept ⟨setFirst_of_ne _ _ hj, rfl, setFirst_of_ne _ _ hj, rfl⟩
          ⟨setFirst_of_ne _ _ hj, rfl, setFirst_of_ne _ _ hj, rfl⟩ id
    | double bits => cases harray
    | stringRef bytes =>
      have hsame := harena (Option.some.inj harray).symm
      rw [← Option.some.inj harray]
      rw [store_stringRef, store_stringRef, FilterChunk.put, FilterChunk.put]
      split
      · exact .error _
      · have hbehind : (if bytes.length ≤ 8 then c.arena else c.arena ++ bytes) =
            if bytes.length ≤ 8 then c'.arena else c'.arena ++ bytes := by rw [hsame]
        refine .ok ⟨.inr ⟨setFirst_self _ _ _, setFirst_self _ _ _, ?_, hbehind⟩,
          fun j hj a h => ?_, fun _ => hbehind⟩
        · show setFirst _ slot _ slot 0 = setFirst _ slot _ slot 0
          rw [setFirst_self, setFirst_self, hsame]
        · exact h.kept ⟨setFirst_of_ne _ _ hj, rfl, rfl, setFirst_of_ne _ _ hj⟩
            ⟨setFirst_of_ne _ _ hj, rfl, rfl, setFirst_of_ne _ _ hj⟩ fun _ => hbehind

/-- **The same writes into two scratch rows** leave the same in every slot they write. -/
theorem foldlM_alike (hnodup : (writes.map Write.dstCol).Nodup)
    (hof : ∀ w ∈ writes, OfArray (bindings.getD w.dstCol .int32) w.cell)
    (harena : (∃ w ∈ writes, bindings.getD w.dstCol .int32 = .string) → c.arena = c'.arena) :
    Alike (fun d d' => (∀ w ∈ writes, SameCell d d' w.dstCol (bindings.getD w.dstCol .int32)) ∧
        ∀ j, j ∉ writes.map Write.dstCol → ∀ a, SameCell c c' j a → SameCell d d' j a)
      (writes.foldlM (storeWrite bindings) c) (writes.foldlM (storeWrite bindings) c') := by
  induction writes generalizing c c' with
  | nil => exact .ok ⟨nofun, fun j _ a h => h⟩
  | cons w writes ih =>
    rw [List.map_cons, List.nodup_cons] at hnodup
    rw [List.foldlM_cons, List.foldlM_cons]
    refine (storeWrite_alike (hof w List.mem_cons_self)
      fun h => harena ⟨w, List.mem_cons_self, h⟩).bind fun d d' ⟨hhere, helse, hsame⟩ => ?_
    refine (@ih d d' hnodup.2 (fun w' hw' => hof w' (List.mem_cons_of_mem _ hw'))
      fun ⟨w', hw', h⟩ => hsame (harena ⟨w', List.mem_cons_of_mem _ hw', h⟩)).mono
        fun last last' ⟨hrest, hkept⟩ => ⟨fun w' hw' => ?_, fun j hj a h => ?_⟩
    · rcases List.mem_cons.1 hw' with rfl | hw'
      · exact hkept _ hnodup.1 _ hhere
      · exact hrest w' hw'
    · rw [List.map_cons, List.mem_cons, not_or] at hj
      exact hkept j hj.2 a (helse j hj.1 a h)

end Deform

section Filter

variable {detoast : List UInt8 → List UInt8} {rel : List RelationColumn}
  {inputs : List FilterInputDesc} {t : HeapTuple} {c c' : FilterChunk}

theorem fetch_array {source : ColumnDecodeKind} {kind : HeapColumns.DeformDecodeKind}
    (hkind : filterDeformKind source = some kind) {typmod : Int} {bytes : List UInt8} {d : Datum}
    (h : fetch (decodeNumeric detoast) kind typmod bytes = .ok d) :
    arrayOf d = bindingArray source := by
  cases source with
  | doubleFloat8 => cases hkind
  | int32Char | int32Date | int32Int4 | int64Int8 =>
    cases hkind
    cases h
    rfl
  | int64NumericScaled =>
    cases hkind
    rw [fetch, decodeNumeric] at h
    cases hscaled : NumericColumns.deformNumericAttribute typmod
        (numericAttribute detoast bytes) with
    | error e =>
      rw [hscaled] at h
      cases h
    | ok scaled =>
      rw [hscaled] at h
      cases h
      rfl
  | stringRef =>
    cases hkind
    rw [fetch, HeapColumns.storeStringBytes] at h
    split at h
    · cases h
    · cases h
      rfl

/-- **What was in the scratch row before does not matter** where the slots are wholly written. -/
theorem filterDeform_alike (hpub : Published (scanSchema rel) inputs) (hne : inputs ≠ [])
    (hwhole : WhollyWritten inputs) :
    Alike (fun d d' => ∀ slot input array, inputs[slot]? = some input →
        bindingArray input.decodeKind = some array → SameCell d d' slot array)
      (filterDeform detoast rel inputs t c) (filterDeform detoast rel inputs t c') := by
  rw [filterDeform_cleared hpub hne, filterDeform_cleared hpub hne]
  have hof : ∀ w ∈ writesOf detoast rel inputs t, OfArray ((inputs.map fun input =>
      (bindingArray input.decodeKind).getD .int32).getD w.dstCol .int32) w.cell := by
    intro w hw v hv
    obtain ⟨input, hinput⟩ := input_of_write hw
    obtain ⟨col, kind, array, w', hw', hslot, hbound, hcell⟩ :=
      @exists_write detoast rel inputs t hpub _ _ hinput
    obtain rfl := write_unique hw hw' hslot.symm
    rw [hcell.cell_eq] at hv
    rw [hbound, ← hcell.array_eq, hwhole input (List.mem_of_getElem? hinput)]
    split at hv
    · cases hv
    · exact fetch_array hcell.kind_eq (Option.some.inj hv)
  -- a string input has its target, for which the arena is emptied
  have harena : (∃ w ∈ writesOf detoast rel inputs t, (inputs.map fun input =>
      (bindingArray input.decodeKind).getD .int32).getD w.dstCol .int32 = .string) →
      (clearArena (finalize (inputs.zipIdx.map targetOf)) c).arena =
        (clearArena (finalize (inputs.zipIdx.map targetOf)) c').arena := by
    rintro ⟨w, hw, hstring⟩
    obtain ⟨input, hinput⟩ := input_of_write hw
    obtain ⟨col, kind, array, w', hw', hslot, hbound, hcell⟩ :=
      @exists_write detoast rel inputs t hpub _ _ hinput
    have hsource : bindingArray input.sourceDecodeKind = some .string := by
      rw [← hwhole input (List.mem_of_getElem? hinput), hcell.array_eq, ← hbound, hstring]
    have hkind : input.sourceDecodeKind = .stringRef := by
      cases h : input.sourceDecodeKind with
      | stringRef => rfl
      | _ =>
        rw [h] at hsource
        cases hsource
    have hany : (finalize (inputs.zipIdx.map targetOf)).targets.any
        (·.decodeKind = .stringRef) = true := by
      refine List.any_eq_true.2 ⟨_, mem_targets.2 ⟨_, _, hinput, rfl⟩, ?_⟩
      rw [targetOf, hkind]
      rfl
    rw [clearArena, clearArena, if_pos hany, if_pos hany]
  refine (foldlM_alike nodup_writesOf hof harena).mono
    fun d d' hwritten slot input array hinput harray => ?_
  obtain ⟨col, kind, array', w, hw, hslot, hbound, hcell⟩ :=
    @exists_write detoast rel inputs t hpub _ _ hinput
  have hsame := hwritten.1 w hw
  rw [hslot, hbound] at hsame
  rw [hcell.array_eq] at harray
  exact Option.some.inj harray ▸ hsame

end Filter

section Answers

variable {detoast : List UInt8 → List UInt8} {S : PhysicalSeqScan} {c c' : FilterChunk}
  {regs regs' : Regs} {t : HeapTuple}

theorem filterTuple_alike (hwhole : WhollyWritten S.filterInputs) :
    Alike (fun a b => a.1 = b.1) (filterTuple detoast S c regs t)
      (filterTuple detoast S c' regs' t) := by
  unfold filterTuple
  split
  · next hfilter =>
    have hne : S.filterInputs ≠ [] := by
      rintro h
      rw [hasFilter, h] at hfilter
      cases hfilter
    refine (filterDeform_alike S.published hne hwhole).bind fun d d' hsame => ?_
    have hcells : ∀ step ∈ S.filter.steps, ∀ x ∈ stepReads step, SameCell d d' x.1 x.2 := by
      intro step hstep x hx
      obtain ⟨input, hinput, harray⟩ := S.fits.reads step hstep x hx
      exact hsame _ input _ hinput harray
    cases hsimple : isSimpleFilterStep S.filter.exprs S.filter.steps with
    | some step =>
      obtain ⟨expr, -, -, hstep, -, hop⟩ := isSimpleFilterStep_eq_some hsimple
      have hmem := List.mem_of_getElem? hstep
      have hresult := @stepResult_congr d d' regs regs step S.filter.stringConsts (hcells step hmem)
        fun r _ => rfl
      rw [stepResult_eq _ _ _ _ _ hop, stepResult_eq _ _ _ _ _ hop] at hresult
      exact (Alike.of_eq hresult).bind fun a b hab => .ok hab
    | none =>
      refine (scanExprs_congr hcells S.fits.regs fun r hr => ?_).bind fun a b hab => .ok hab
      rw [clearRegs, clearRegs, if_pos hr, if_pos hr]
  · exact .ok rfl

/-- **The filter answers a tuple the same** whatever is in the scratch row and the registers. -/
theorem filterTuple_answer (hwhole : WhollyWritten S.filterInputs) :
    (filterTuple detoast S c regs t).map Prod.fst = answer detoast S t :=
  (filterTuple_alike hwhole).map_eq fun _ _ h => h

/-- What a tuple adds to the chunk: its projection where it passes. -/
theorem scanTuple_ok (hwhole : WhollyWritten S.filterInputs) {row : Option ScanRow}
    (h : scanTuple detoast S c regs t = .ok (row, c', regs')) :
    List.Forall₂ (Projects detoast S) ([t].filter (passes detoast S)) row.toList := by
  have hanswer := @filterTuple_answer detoast S c regs t hwhole
  unfold scanTuple at h
  cases hfilter : filterTuple detoast S c regs t with
  | error e =>
    rw [hfilter] at h
    cases h
  | ok result =>
    obtain ⟨pass, chunk, regs₁⟩ := result
    rw [hfilter] at h hanswer
    have hpasses : passes detoast S t = pass := by
      rw [passes, ← hanswer]
      rfl
    rw [List.filter_singleton, hpasses]
    cases pass with
    | false =>
      cases h
      exact .nil
    | true =>
      cases hproject : projectTuple detoast S t with
      | error e =>
        have h : Except.bind (projectTuple detoast S t) _ = _ := h
        rw [hproject] at h
        cases h
      | ok projected =>
        have h : Except.bind (projectTuple detoast S t) _ = _ := h
        rw [hproject] at h
        cases h
        exact .cons hproject .nil

/-- A tuple without an error of its own raises none in the scan. -/
theorem exists_scanTuple (hwhole : WhollyWritten S.filterInputs) {pass : Bool}
    (hanswer : answer detoast S t = .ok pass)
    (hproject : pass = true → ∃ row, Projects detoast S t row) :
    ∃ result, scanTuple detoast S c regs t = .ok result := by
  have hsame := @filterTuple_answer detoast S c regs t hwhole
  rw [hanswer] at hsame
  unfold scanTuple
  cases hfilter : filterTuple detoast S c regs t with
  | error e =>
    rw [hfilter] at hsame
    cases hsame
  | ok result =>
    obtain ⟨pass', chunk, regs₁⟩ := result
    rw [hfilter] at hsame
    obtain rfl : pass' = pass := Except.ok.inj hsame
    cases pass' with
    | false => exact ⟨_, rfl⟩
    | true =>
      obtain ⟨row, hrow⟩ := hproject rfl
      refine ⟨(some row, chunk, regs₁), ?_⟩
      show Except.bind (projectTuple detoast S t) _ = _
      rw [show projectTuple detoast S t = .ok row from hrow]
      rfl

end Answers

/-! ## The cursor -/

section Cursor

variable {l l' : SeqScanLocalState}

/-- The offsets from a line on stand for the visible tuples from there on. -/
theorem map_collectFrom {allVisible : Bool} {pre lines : List LinePointer} {page : Page}
    (hpage : page.lines = pre ++ lines) (hvisible : allVisible = true → ∀ tuple visible,
      LinePointer.normal tuple visible ∈ lines → visible = true) :
    (collectFrom allVisible (pre.length + 1) lines).map page.getItem =
      (lines.filterMap fun
        | .normal tuple true => some tuple
        | _ => none).map some := by
  induction lines generalizing pre with
  | nil => rfl
  | cons line lines ih =>
    have hrest := @ih (pre ++ [line]) (by simp [hpage]) fun h tuple visible hmem =>
      hvisible h tuple visible (List.mem_cons_of_mem _ hmem)
    rw [List.length_append, List.length_singleton] at hrest
    cases line with
    | other => exact hrest
    | normal tuple visible =>
      have hitem : page.getItem (pre.length + 1) = some tuple := by
        rw [Page.getItem, hpage, Nat.add_sub_cancel, List.getElem?_append_right le_rfl,
          Nat.sub_self]
        rfl
      have hsees : (allVisible || visible) = visible := by
        cases hall : allVisible with
        | false => rfl
        | true => rw [hvisible hall tuple visible List.mem_cons_self]; rfl
      rw [collectFrom, hsees]
      cases visible with
      | false => exact hrest
      | true =>
        rw [if_pos rfl, List.map_cons, hitem, hrest]
        rfl

/-- The offsets of a page stand for its visible tuples. -/
theorem map_getItem (page : Page) :
    (collectPageTuples page).map page.getItem = (visibleTuples page).map some :=
  @map_collectFrom page.allVisible [] page.lines page rfl page.visible_of_allVisible

theorem length_collectPageTuples (page : Page) :
    (collectPageTuples page).length = (visibleTuples page).length := by
  have hlength := congrArg List.length (map_getItem page)
  rwa [List.length_map, List.length_map] at hlength

/-- What is known of the page that is pinned: the offsets are its own. -/
def Cursor (l : SeqScanLocalState) : Prop :=
  ∀ page, l.cbuf = some page → l.vistuples = collectPageTuples page ∧
    l.ntuples = (collectPageTuples page).length

/-- The visible tuples that are still to be looked at: those of the page that is pinned, from the
cursor on, and those of the pages to come. -/
def left (l : SeqScanLocalState) : List HeapTuple :=
  (l.cbuf.elim [] fun page => (visibleTuples page).drop l.pageVisibleIndex) ++
    l.stream.flatMap visibleTuples

theorem left_release : left (releaseSeqScanPage l) = l.stream.flatMap visibleTuples := rfl

theorem cursor_release : Cursor (releaseSeqScanPage l) := nofun

/-- The next page, where the one that is pinned has nothing left. -/
theorem left_loadNext (h : loadNextSeqScanPage l = (true, l')) :
    Cursor l' ∧ left l' = l.stream.flatMap visibleTuples ∧ l'.exhausted = l.exhausted := by
  unfold loadNextSeqScanPage at h
  split at h
  · cases h
  · next page stream hstream =>
    cases h
    refine ⟨fun page' hpage => Option.some.inj hpage ▸ ⟨rfl, rfl⟩, ?_, rfl⟩
    rw [show l.stream = page :: stream from hstream]
    rfl

theorem loadNext_none (h : loadNextSeqScanPage l = (false, l')) :
    Cursor l' ∧ left l' = [] ∧ l.stream = [] := by
  unfold loadNextSeqScanPage at h
  split at h
  · next hstream =>
    cases h
    have hstream : l.stream = [] := hstream
    exact ⟨cursor_release, by rw [left_release, hstream]; rfl, hstream⟩
  · cases h

/-- Nothing is left of a page whose cursor is behind the last tuple, or of none. -/
theorem left_of_not_loaded (hcursor : Cursor l)
    (h : ¬(l.cbuf.isSome ∧ l.pageVisibleIndex < l.ntuples)) :
    left l = l.stream.flatMap visibleTuples := by
  rw [left]
  cases hbuf : l.cbuf with
  | none => rfl
  | some page =>
    rw [hbuf] at h
    have hle : (visibleTuples page).length ≤ l.pageVisibleIndex := by
      rw [← length_collectPageTuples, ← (hcursor page hbuf).2]
      exact Nat.not_lt.1 fun hlt => h ⟨rfl, hlt⟩
    rw [Option.elim_some, List.drop_eq_nil_of_le hle, List.nil_append]

/-- A page is found, and no tuple is lost on the way to it. -/
theorem ensure_true (hcursor : Cursor l) (h : ensureSeqScanPageLoaded l = (true, l')) :
    Cursor l' ∧ left l' = left l ∧ l'.exhausted = l.exhausted ∧ l'.cbuf.isSome ∧
      l'.pageVisibleIndex < l'.ntuples := by
  induction l using ensureSeqScanPageLoaded.induct with
  | case1 l hloaded =>
    rw [ensure_of_loaded hloaded] at h
    cases h
    exact ⟨hcursor, rfl, rfl, hloaded⟩
  | case2 l hloaded l₁ hload =>
    rw [ensure_of_none hloaded hload] at h
    cases h
  | case3 l hloaded l₁ hload ih =>
    rw [ensure_of_page hloaded hload] at h
    obtain ⟨hnext, hleft, hexhausted⟩ := left_loadNext hload
    obtain ⟨hlast, hsame, hstill, hin⟩ := ih hnext h
    exact ⟨hlast, by rw [hsame, hleft, left_of_not_loaded hcursor hloaded],
      hstill.trans hexhausted, hin⟩

/-- Where no page is found, no tuple is left. -/
theorem ensure_false (hcursor : Cursor l) (h : ensureSeqScanPageLoaded l = (false, l')) :
    Cursor l' ∧ left l' = [] ∧ left l = [] := by
  induction l using ensureSeqScanPageLoaded.induct with
  | case1 l hloaded =>
    rw [ensure_of_loaded hloaded] at h
    cases h
  | case2 l hloaded l₁ hload =>
    rw [ensure_of_none hloaded hload] at h
    cases h
    obtain ⟨hlast, hleft, hstream⟩ := loadNext_none hload
    exact ⟨hlast, hleft, by rw [left_of_not_loaded hcursor hloaded, hstream]; rfl⟩
  | case3 l hloaded l₁ hload ih =>
    rw [ensure_of_page hloaded hload] at h
    obtain ⟨hnext, hleft, -⟩ := left_loadNext hload
    obtain ⟨hlast, hempty, hall⟩ := ih hnext h
    exact ⟨hlast, hempty, by rw [left_of_not_loaded hcursor hloaded, ← hleft, hall]⟩

/-- **The tuple at the cursor** is the first that is left, and the others stay. -/
theorem tuple_at_cursor (hcursor : Cursor l) (hbuf : l.cbuf.isSome)
    (hin : l.pageVisibleIndex < l.ntuples) :
    ∃ t, (l.cbuf.bind fun page => page.getItem (l.vistuples.getD l.pageVisibleIndex 0)) = some t ∧
      left l = t :: left (advance l) := by
  obtain ⟨page, hpage⟩ := Option.isSome_iff_exists.1 hbuf
  obtain ⟨hvis, hn⟩ := hcursor page hpage
  have hlt : l.pageVisibleIndex < (visibleTuples page).length := by
    rw [← length_collectPageTuples, ← hn]
    exact hin
  refine ⟨(visibleTuples page)[l.pageVisibleIndex], ?_, ?_⟩
  · have hitem := congrArg (·[l.pageVisibleIndex]?) (map_getItem page)
    rw [List.getElem?_map, List.getElem?_map, List.getElem?_eq_getElem hlt,
      List.getElem?_eq_getElem (by rw [length_collectPageTuples]; exact hlt)] at hitem
    rw [hpage, Option.bind_some, hvis, List.getD_eq_getElem?_getD,
      List.getElem?_eq_getElem (by rw [length_collectPageTuples]; exact hlt), Option.getD_some]
    exact Option.some.inj hitem
  · rw [left, left, hpage]
    show (visibleTuples page).drop _ ++ _ =
      _ :: ((advance l).cbuf.elim [] fun page => (visibleTuples page).drop _) ++ _
    rw [show (advance l).cbuf = some page from hpage, Option.elim_some,
      List.drop_eq_getElem_cons hlt]
    rfl

end Cursor

/-! ## Calls -/

section Calls

variable {detoast : List UInt8 → List UInt8} {S : PhysicalSeqScan} {l l' : SeqScanLocalState}
  {out out' : List ScanRow}

/-- What is left once a worker is exhausted is nothing. -/
structure ScanInv (l : SeqScanLocalState) : Prop where
  cursor : Cursor l
  exhausted : l.exhausted = true → left l = []

/-- What a loop has done: some tuples are taken off, and those that pass have their rows. -/
structure Scanned (detoast : List UInt8 → List UInt8) (S : PhysicalSeqScan)
    (l : SeqScanLocalState) (out : List ScanRow) (l' : SeqScanLocalState)
    (out' : List ScanRow) : Prop where
  inv : ScanInv l'
  taken : ∃ taken rows, left l = taken ++ left l' ∧ out' = out ++ rows ∧
    List.Forall₂ (Projects detoast S) (taken.filter (passes detoast S)) rows
  length_le : out'.length ≤ pipelineDefaultChunkSize
  short : out'.length < pipelineDefaultChunkSize → l'.exhausted = true

theorem length_row (row : Option ScanRow) : row.toList.length ≤ 1 := by
  cases row with
  | none => exact Nat.zero_le _
  | some row => exact le_rfl

/-- **The loop of a call.** -/
theorem getDataLoop_scanned (hwhole : WhollyWritten S.filterInputs) (hinv : ScanInv l)
    (hlen : out.length ≤ pipelineDefaultChunkSize)
    (h : getDataLoop detoast S out l = .ok (out', l')) : Scanned detoast S l out l' out' := by
  induction hn : remaining l using Nat.strong_induction_on generalizing l out with
  | _ n ih =>
    by_cases hfull : pipelineDefaultChunkSize ≤ out.length
    · rw [getDataLoop, if_pos hfull] at h
      cases h
      exact ⟨hinv, ⟨[], [], rfl, (List.append_nil _).symm, .nil⟩, hlen,
        fun hlt => absurd hfull (Nat.not_le.2 hlt)⟩
    · cases hload : ensureSeqScanPageLoaded l with
      | mk found l₁ =>
        cases found with
        | false =>
          obtain ⟨hcursor, hleft, hall⟩ := ensure_false hinv.cursor hload
          rw [getDataLoop_none hfull hload] at h
          cases h
          refine ⟨⟨hcursor, fun _ => hleft⟩, ⟨[], [], ?_, (List.append_nil _).symm, .nil⟩, hlen,
            fun _ => rfl⟩
          rw [hall]
          exact hleft.symm
        | true =>
          obtain ⟨hcursor, hleft, hexhausted, hbuf, hin⟩ := ensure_true hinv.cursor hload
          obtain ⟨t, ht, hsplit⟩ := tuple_at_cursor hcursor hbuf hin
          cases hscan : scanTuple detoast S l₁.filterChunk l₁.filterBoolValues t with
          | error e =>
            rw [getDataLoop_error hfull hload ht hscan] at h
            cases h
          | ok result =>
            obtain ⟨row, chunk, regs⟩ := result
            rw [getDataLoop_next hfull hload ht hscan] at h
            have hrow := scanTuple_ok hwhole hscan
            have hnext : ScanInv
                { advance l₁ with filterChunk := chunk, filterBoolValues := regs } :=
              ⟨hcursor, fun hex => by
                have hempty := hinv.exhausted (hexhausted ▸ hex)
                rw [← hleft, hsplit] at hempty
                cases hempty⟩
            have hone := length_row row
            have hrun := ih _ (hn ▸ remaining_ensure hload) hnext
              (by rw [List.length_append]; omega) h rfl
            obtain ⟨taken, rows, hrest, hout, hrows⟩ := hrun.taken
            refine ⟨hrun.inv, ⟨t :: taken, row.toList ++ rows, ?_, ?_, ?_⟩, hrun.length_le,
              hrun.short⟩
            · rw [← hleft, hsplit, List.cons_append, ← hrest]
              rfl
            · rw [hout, List.append_assoc]
            · rw [← List.singleton_append, List.filter_append]
              exact List.rel_append hrow hrows

/-- The loop ends where no tuple that is left raises an error. -/
theorem exists_getDataLoop (hwhole : WhollyWritten S.filterInputs) (hcursor : Cursor l)
    (hno : ∀ t ∈ left l, ∃ pass, answer detoast S t = .ok pass ∧
      (pass = true → ∃ row, Projects detoast S t row)) :
    ∃ result, getDataLoop detoast S out l = .ok result := by
  induction hn : remaining l using Nat.strong_induction_on generalizing l out with
  | _ n ih =>
    by_cases hfull : pipelineDefaultChunkSize ≤ out.length
    · exact ⟨_, by rw [getDataLoop, if_pos hfull]⟩
    · cases hload : ensureSeqScanPageLoaded l with
      | mk found l₁ =>
        cases found with
        | false => exact ⟨_, getDataLoop_none hfull hload⟩
        | true =>
          obtain ⟨hnext, hleft, -, hbuf, hin⟩ := ensure_true hcursor hload
          obtain ⟨t, ht, hsplit⟩ := tuple_at_cursor hnext hbuf hin
          rw [hleft] at hsplit
          obtain ⟨pass, hanswer, hproject⟩ := hno t (hsplit ▸ List.mem_cons_self)
          obtain ⟨⟨row, chunk, regs⟩, hscan⟩ :=
            @exists_scanTuple detoast S l₁.filterChunk l₁.filterBoolValues t hwhole _ hanswer
              hproject
          rw [getDataLoop_next hfull hload ht hscan]
          exact ih _ (hn ▸ remaining_ensure hload) hnext
            (fun t' ht' => hno t' (hsplit ▸ List.mem_cons_of_mem _ ht')) rfl

/-- A bound on how many calls return a chunk: the tuples that are left, and one before the worker
is exhausted. -/
def callsLeft (l : SeqScanLocalState) : Nat := (left l).length + if l.exhausted then 0 else 1

/-- **A call of `GetData`**: it takes tuples off and returns the rows of those that pass. There
are rows where it says that there are more, and nothing is left where it does not. -/
structure Called (detoast : List UInt8 → List UInt8) (S : PhysicalSeqScan)
    (l : SeqScanLocalState) (result : SourceResultType) (out : List ScanRow)
    (l' : SeqScanLocalState) : Prop where
  inv : ScanInv l'
  taken : ∃ taken, left l = taken ++ left l' ∧
    List.Forall₂ (Projects detoast S) (taken.filter (passes detoast S)) out
  length_le : out.length ≤ pipelineDefaultChunkSize
  finished : result = .finished → out = [] ∧ left l' = []
  more : result = .haveMoreOutput → out ≠ [] ∧ callsLeft l' < callsLeft l

theorem left_release_of_empty (h : left l = []) : left (releaseSeqScanPage l) = [] :=
  (List.append_eq_nil_iff.1 h).2

theorem getData_called (hwhole : WhollyWritten S.filterInputs) (hinv : ScanInv l)
    {result : SourceResultType} (h : getData detoast S l = .ok (result, out, l')) :
    Called detoast S l result out l' := by
  unfold getData at h
  by_cases hexhausted : l.exhausted = true
  · rw [if_pos hexhausted] at h
    cases h
    exact ⟨hinv, ⟨[], rfl, .nil⟩, Nat.zero_le _, fun _ => ⟨rfl, hinv.exhausted hexhausted⟩, nofun⟩
  · rw [if_neg hexhausted] at h
    cases hcheck : checkDescriptors S with
    | error e =>
      rw [hcheck] at h
      cases h
    | ok _ =>
      rw [hcheck] at h
      cases hloop : getDataLoop detoast S [] l with
      | error e =>
        have h : Except.bind (getDataLoop detoast S [] l) _ = _ := h
        rw [hloop] at h
        cases h
      | ok pair =>
        obtain ⟨rows, l₁⟩ := pair
        have h : Except.bind (getDataLoop detoast S [] l) _ = _ := h
        rw [hloop] at h
        have hrun := getDataLoop_scanned hwhole hinv (Nat.zero_le _) hloop
        obtain ⟨taken, rows', hleft, hrows', hpass⟩ := hrun.taken
        rw [← show rows = rows' from hrows'] at hpass
        have hbefore : callsLeft l = (left l).length + 1 := by
          rw [callsLeft, if_neg hexhausted]
        by_cases hfull : pipelineDefaultChunkSize ≤ rows.length
        · have h : (if pipelineDefaultChunkSize ≤ rows.length then _ else _) = _ := h
          rw [if_pos hfull] at h
          cases h
          have hne : out ≠ [] := by
            rintro rfl
            exact absurd hfull (by decide)
          refine ⟨hrun.inv, ⟨taken, hleft, hpass⟩, hrun.length_le, nofun, fun _ => ⟨hne, ?_⟩⟩
          -- a row comes from a tuple that is taken off
          have hsome : 0 < taken.length := by
            have hlength := hpass.length_eq
            have hle := List.length_filter_le (passes detoast S) taken
            have hpos := List.length_pos_of_ne_nil hne
            omega
          have hcount := congrArg List.length hleft
          rw [List.length_append] at hcount
          rw [hbefore, callsLeft]
          split <;> omega
        · have h : (if pipelineDefaultChunkSize ≤ rows.length then _ else _) = _ := h
          rw [if_neg hfull] at h
          have hend : l₁.exhausted = true := hrun.short (Nat.not_le.1 hfull)
          have hempty := hrun.inv.exhausted hend
          have hreleased := left_release_of_empty hempty
          have htaken : left l = taken ++ left (releaseSeqScanPage l₁) := by
            rw [hreleased, hleft, hempty]
          cases h
          have hcalls : callsLeft (releaseSeqScanPage l₁) = 0 := by
            rw [callsLeft, hreleased, show (releaseSeqScanPage l₁).exhausted = true from hend]
            rfl
          refine ⟨⟨cursor_release, fun _ => hreleased⟩, ⟨taken, htaken, hpass⟩, hrun.length_le,
            fun hresult => ⟨?_, hreleased⟩, fun hresult => ⟨?_, by omega⟩⟩
          · split at hresult
            · cases hresult
            · next hzero => exact List.eq_nil_of_length_eq_zero (by omega)
          · rintro rfl
            cases hresult


/-- A call returns where no tuple that is left raises an error. -/
theorem exists_getData (hwhole : WhollyWritten S.filterInputs) (hcursor : Cursor l)
    (hcheck : checkDescriptors S = .ok ())
    (hno : ∀ t ∈ left l, ∃ pass, answer detoast S t = .ok pass ∧
      (pass = true → ∃ row, Projects detoast S t row)) :
    ∃ result, getData detoast S l = .ok result := by
  unfold getData
  split
  · exact ⟨_, rfl⟩
  · obtain ⟨⟨rows, l₁⟩, hloop⟩ := @exists_getDataLoop detoast S l [] hwhole hcursor hno
    rw [hcheck]
    show ∃ result, Except.bind (getDataLoop detoast S [] l) _ = _
    rw [hloop]
    show ∃ result, (if pipelineDefaultChunkSize ≤ rows.length then _ else _) = Except.ok result
    split
    · exact ⟨_, rfl⟩
    · exact ⟨_, rfl⟩

/-- **The chunks of a worker** have the rows of the tuples that were left. -/
theorem drains_rows (hwhole : WhollyWritten S.filterInputs) (hinv : ScanInv l)
    {chunks : List (List ScanRow)} (h : Drains detoast S l chunks) :
    List.Forall₂ (Projects detoast S) ((left l).filter (passes detoast S)) chunks.flatten ∧
      ∀ chunk ∈ chunks, chunk ≠ [] ∧ chunk.length ≤ pipelineDefaultChunkSize := by
  induction h with
  | finished hcall =>
    have hcalled := getData_called hwhole hinv hcall
    obtain ⟨hout, hempty⟩ := hcalled.finished rfl
    obtain ⟨taken, hleft, hrows⟩ := hcalled.taken
    rw [hempty, List.append_nil] at hleft
    rw [hout] at hrows
    exact ⟨hleft ▸ hrows, nofun⟩
  | more hcall _ ih =>
    have hcalled := getData_called hwhole hinv hcall
    obtain ⟨hrest, hchunks⟩ := ih hcalled.inv
    obtain ⟨taken, hleft, hrows⟩ := hcalled.taken
    refine ⟨?_, fun chunk hchunk => ?_⟩
    · rw [hleft, List.filter_append, List.flatten_cons]
      exact List.rel_append hrows hrest
    · rcases List.mem_cons.1 hchunk with rfl | hchunk
      · exact ⟨(hcalled.more rfl).1, hcalled.length_le⟩
      · exact hchunks chunk hchunk

/-- **A worker comes to `FINISHED`** where no tuple that is left raises an error. -/
theorem exists_drains (hwhole : WhollyWritten S.filterInputs) (hinv : ScanInv l)
    (hcheck : checkDescriptors S = .ok ())
    (hno : ∀ t ∈ left l, ∃ pass, answer detoast S t = .ok pass ∧
      (pass = true → ∃ row, Projects detoast S t row)) :
    ∃ chunks, Drains detoast S l chunks := by
  induction hn : callsLeft l using Nat.strong_induction_on generalizing l with
  | _ n ih =>
    obtain ⟨⟨result, out, l'⟩, hcall⟩ := exists_getData hwhole hinv.cursor hcheck hno
    have hcalled := getData_called hwhole hinv hcall
    cases result with
    | finished => exact ⟨[], .finished hcall⟩
    | haveMoreOutput =>
      obtain ⟨taken, hleft, -⟩ := hcalled.taken
      obtain ⟨chunks, hchunks⟩ := ih _ (hn ▸ (hcalled.more rfl).2) hcalled.inv
        (fun t ht => hno t (hleft ▸ List.mem_append_right _ ht)) rfl
      exact ⟨out :: chunks, .more hcall hchunks⟩

end Calls

/-! ## All workers -/

/-- A worker: the pages that the read stream hands out to it, and what is in its memory. -/
structure Worker where
  stream : List Page
  filterChunk : FilterChunk
  filterBoolValues : Regs

/-- Its state before the first call. -/
def Worker.start (totalBlocks : Nat) (w : Worker) : SeqScanLocalState :=
  initial totalBlocks w.stream w.filterChunk w.filterBoolValues

/-- Each page is handed out once. -/
def HandsOut (pages : List Page) (workers : List Worker) : Prop :=
  ((workers.map Worker.stream).flatten).Perm pages

section Workers

variable {detoast : List UInt8 → List UInt8} {S : PhysicalSeqScan} {pages : List Page}
  {workers : List Worker}

theorem left_start (totalBlocks : Nat) (w : Worker) :
    left (w.start totalBlocks) = w.stream.flatMap visibleTuples := rfl

theorem scanInv_start (hpages : HandsOut pages workers) {w : Worker} (hw : w ∈ workers) :
    ScanInv (w.start pages.length) := by
  refine ⟨nofun, fun hexhausted => ?_⟩
  have hnone : pages = [] := List.eq_nil_of_length_eq_zero (of_decide_eq_true hexhausted)
  have hall : (workers.map Worker.stream).flatten = [] := (hnone ▸ hpages).eq_nil
  rw [left_start, List.flatten_eq_nil_iff.1 hall _ (List.mem_map_of_mem hw)]
  rfl

/-- The rows of several workers are those of their pages, worker by worker. -/
theorem rowsOf_flatten {outs : List (List (List ScanRow))}
    (h : List.Forall₂ (fun w chunks => RowsOf detoast S (Worker.stream w) chunks.flatten)
      workers outs) :
    RowsOf detoast S (workers.map Worker.stream).flatten (outs.map List.flatten).flatten := by
  induction h with
  | nil => exact .nil
  | cons hrows _ ih =>
    rw [RowsOf, List.map_cons, List.flatten_cons, List.flatMap_append, List.filter_append,
      List.map_cons, List.flatten_cons]
    exact List.rel_append hrows ih

/-- Other pages in another order have the rows in another order. -/
theorem rowsOf_perm {pages' : List Page} {rows : List ScanRow} (hperm : pages.Perm pages')
    (h : RowsOf detoast S pages rows) :
    ∃ rows', rows.Perm rows' ∧ RowsOf detoast S pages' rows' := by
  have htuples := ((hperm.flatMap_right visibleTuples).filter (passes detoast S)).symm
  obtain ⟨rows', hrows', hrowsPerm⟩ := List.perm_comp_forall₂ htuples h
  exact ⟨rows', hrowsPerm.symm, hrows'⟩

end Workers

/-! ## An integer against a bigint -/

theorem int8_attlen (len : Option Nat) (h : typlen ColumnSlots.int8Oid = some len) :
    some 8 = len :=
  Option.some.inj h

/-- A column of type `int4` and one of type `int8`. -/
def integerAndBigint : List RelationColumn :=
  [⟨⟨some 4, 4, -1, none⟩, ColumnSlots.int4Oid, int4_attlen⟩,
    ⟨⟨some 8, 8, -1, none⟩, ColumnSlots.int8Oid, int8_attlen⟩]

/-- Two fives. -/
def twoFives : HeapTuple where
  natts := 2
  hasNulls := false
  hoff := 24
  len := 40
  bytes := fun a => if a = 24 ∨ a = 32 then 5 else 0

/-- The inputs of a comparison of the two. -/
def integerAndBigintInputs : List FilterInputDesc :=
  [⟨1, .int64NumericScaled, .int32Int4, 0⟩, ⟨2, .int64NumericScaled, .int64Int8, 0⟩]

theorem lower_integerAndBigint :
    lowerScanFilters noConstants (scanSchema integerAndBigint)
        [.compare ⟨.eq, .column 1, .column 2⟩] =
      some ⟨integerAndBigintInputs, [⟨0, 1, 0⟩], [⟨.test (.int64CmpVar .eq 0 1), 0⟩]⟩ := by
  decide

/-- A filter of one test for equality. -/
def oneTest (op : StepOp) (left right : Nat) : SimpleFilterSteps.Program where
  exprs := [⟨0, 1, 0⟩]
  steps := [⟨op, .eq, left, right, 0, 0, 0, 0⟩]
  stringConsts := none

theorem fits_oneTest {inputs : List FilterInputDesc} {left right : Nat} {x y : FilterInputDesc}
    (hx : inputs[left]? = some x) (hy : inputs[right]? = some y)
    (hxkind : bindingArray x.decodeKind = some .int64)
    (hykind : bindingArray y.decodeKind = some .int64) :
    FilterFits inputs (oneTest .int64CmpVar left right) := by
  refine ⟨fun _ => ⟨?_, nofun⟩, fun step hstep slot hslot => ?_, ?_⟩
  · rintro rfl
    cases hx
  · obtain rfl := List.mem_singleton.1 hstep
    have hslot : slot ∈ [(left, ScratchArray.int64), (right, ScratchArray.int64)] := hslot
    rw [List.mem_pair] at hslot
    rcases hslot with rfl | rfl
    · exact ⟨x, hx, hxkind⟩
    · exact ⟨y, hy, hykind⟩
  · exact ⟨⟨nofun, trivial⟩, .inr ⟨_, List.mem_singleton_self _, rfl⟩, trivial⟩

/-- The scan with `a = b`, for `a` of type `int4` and `b` of type `int8`. -/
def scanOfEqual : PhysicalSeqScan where
  rel := integerAndBigint
  filterInputs := integerAndBigintInputs
  filter := oneTest .int64CmpVar 0 1
  filterBoolRegs := 1
  projection := finalize [⟨0, 0, .int32⟩, ⟨1, 1, .int64⟩]
  published := published_of_lower lower_integerAndBigint
  fits := fits_oneTest rfl rfl rfl rfl

theorem lower_bigint :
    lowerScanFilters noConstants (scanSchema integerAndBigint)
        [.compare ⟨.eq, .column 2, .column 2⟩] =
      some ⟨[⟨2, .int64Int8, .int64Int8, 0⟩], [⟨0, 1, 0⟩],
        [⟨.test (.int64CmpVar .eq 0 0), 0⟩]⟩ := by
  decide

/-- The scan with `b = b`. -/
def scanOfBigint : PhysicalSeqScan where
  rel := integerAndBigint
  filterInputs := [⟨2, .int64Int8, .int64Int8, 0⟩]
  filter := oneTest .int64CmpVar 0 0
  filterBoolRegs := 1
  projection := finalize [⟨0, 0, .int32⟩, ⟨1, 1, .int64⟩]
  published := published_of_lower lower_bigint
  fits := fits_oneTest rfl rfl rfl rfl

/-- A page with the two fives. -/
def pageOfFives : Page := ⟨[.normal twoFives true], true, by simp⟩

/-- A page whose tuple is not visible. -/
def pageOfNone : Page := ⟨[.other, .normal twoFives false], false, nofun⟩

/-- Memory that has something in it. -/
def usedChunk : FilterChunk := { zeroChunk with int64 := fun _ _ => 4294967296 }

/-- The calls of a worker that has the page of fives, with memory that is not cleared: the first
finds the tuple, which does not pass, and then no page. -/
theorem drains_scanOfEqual :
    Drains id scanOfEqual (Worker.start 1 ⟨[pageOfFives], usedChunk, fun _ => false⟩) [] := by
  have hfirst := (ensure_of_page (l := Worker.start 1 ⟨[pageOfFives], usedChunk, fun _ => false⟩)
    (fun h => nomatch h.1) rfl).trans (ensure_of_loaded ⟨rfl, Nat.one_pos⟩)
  obtain ⟨c, regs, hscan⟩ : ∃ c regs, scanTuple id scanOfEqual usedChunk (fun _ => false) twoFives =
      .ok (none, c, regs) := ⟨_, _, rfl⟩
  obtain ⟨l', hloop⟩ : ∃ l', getDataLoop id scanOfEqual []
      (Worker.start 1 ⟨[pageOfFives], usedChunk, fun _ => false⟩) = .ok ([], l') := by
    rw [@getDataLoop_next id scanOfEqual [] _ _ twoFives (by decide) hfirst rfl none c regs hscan]
    exact ⟨_, getDataLoop_none (by decide)
      (ensure_of_none (fun h => absurd h.2 (Nat.lt_irrefl 1)) rfl)⟩
  refine @Drains.finished id scanOfEqual _ (releaseSeqScanPage l') [] ?_
  unfold getData
  rw [if_neg (by decide)]
  show Except.bind (getDataLoop id scanOfEqual [] _) _ = _
  rw [hloop]
  rfl

end SeqScan
end PgYaap
