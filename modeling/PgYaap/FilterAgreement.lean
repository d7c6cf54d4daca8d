import Mathlib
import PgYaap.FilterSql

/-! # Filters in scans, standalone filters and joins

The same predicate can be evaluated by a sequential scan, by a standalone filter and by
a hash join. The scan and the join have an evaluator of their own, and the join a
lowering of its own. All three run the lowered program as the predicate is evaluated
over its tests; they differ in what a test reads. The scan compares two numerics as
they are stored, whatever their scales, and decodes a promoted four-byte integer into
the low half of an eight-byte slot; the join does not look at the NULL flags. -/
namespace PgYaap
namespace FilterProgram
open SqlLogic

/-! ## The lowering for a join -/

/-- `LookupOrAddJoinFilterInput` and `LookupOrAddJoinFilterInputAs`. A column number stands
for a side and a slot. -/
def joinInput (schema : Schema) (request : InputRequest) (inputs : List FilterInputDesc) :
    Option (Nat × List FilterInputDesc) := do
  let desc ← requestDesc schema request
  match inputs.findIdx? (· == desc) with
  | some i => some (i, inputs)
  | none =>
      if filterMaxInputs ≤ inputs.length then none
      else some (inputs.length, inputs ++ [desc])

/-- The inputs of a test in a join. Columns of different kinds are registered as they are
stored before they are promoted. -/
def registerJoinTest (schema : Schema) (t : FilterTest InputRequest)
    (inputs : List FilterInputDesc) : Option (FilterTest Nat × List FilterInputDesc) := do
  let inputs ← (match t with
    | .int64CmpVar _ (.promoted left _) (.promoted right _) => do
        let (_, inputs) ← joinInput schema (.own left) inputs
        let (_, inputs) ← joinInput schema (.own right) inputs
        some inputs
    | _ => some inputs)
  t.register (joinInput schema) inputs

/-- **The lowering for joins**: the target scale is always zero. -/
def joinLowering (T : TypeSupport) (schema : Schema) : Lowering where
  test := compareTest T (fun _ _ => 0) schema
  register := registerJoinTest schema

/-- `LowerJoinFilters`. -/
def lowerJoinFilters (T : TypeSupport) (schema : Schema) (filters : List Expr) : Option Program :=
  (joinLowering T schema).filters filters

/-! ## The evaluators of the scan and the join -/

/-- `MatchPercentLikePattern` of the scan and the join: behind the last token of a pattern
that does not end in `%` no text may be left. -/
def matchPercentLikeToEnd (text spec : Bytes) : Bool :=
  if spec = [] then text.isEmpty
  else match matchTokens (spec.head? != some percent) spec [] true text with
    | none => false
    | some rest => spec.getLast? == some percent || rest.isEmpty

/-- A four-byte store into an eight-byte slot, low byte first: the high half stays. -/
def storeInt32 (slot : Int64) (value : Int32) : Int64 :=
  Int64.ofBitVec (slot.toBitVec.extractLsb' 32 32 ++ value.toBitVec)

/-- The integer the deformer leaves in the slot of an input: it decodes a column as it is
stored, into a slot of the kind the test wants. -/
def scanInt64 (scratch : FilterInputDesc → Int64) (row : Row) (input : FilterInputDesc) : Int64 :=
  match input.sourceDecodeKind with
  | .int32Char | .int32Date | .int32Int4 =>
      storeInt32 (scratch input) (row.getInt32 input.attno input.sourceDecodeKind)
  | _ => (row.int64 input.attno).value

/-- **The scan on a row**, with what stands in the slots of the scratch chunk. -/
def scanEvaluator (scratch : FilterInputDesc → Int64) (row : Row) : Evaluator where
  isNull input := row.isNull input.attno input.sourceDecodeKind
  int32 input := row.getInt32 input.attno input.sourceDecodeKind
  int64 := scanInt64 scratch row
  string input := (row.string input.attno).value.val
  rescales := false
  matchPercentLike := matchPercentLikeToEnd

/-- `ReadPromotedFilterInt64FromProbe` and `ReadPromotedFilterInt64FromBuild`. -/
def joinInt64 (row : Row) (input : FilterInputDesc) : Int64 :=
  match input.sourceDecodeKind with
  | .int32Char | .int32Date | .int32Int4 =>
      (row.getInt32 input.attno input.sourceDecodeKind).toInt64
  | _ => (row.int64 input.attno).value

/-- **The join on a pair of rows**: `PopulateJoinFilterChunk` clears every NULL flag. -/
def joinEvaluator (row : Row) : Evaluator where
  isNull _ := false
  int32 input := row.getInt32 input.attno input.sourceDecodeKind
  int64 := joinInt64 row
  string input := (row.string input.attno).value.val
  rescales := true
  matchPercentLike := matchPercentLikeToEnd

/-- The registers the translator reserves for a scan: as many as the last step needs, if
there are as many. -/
def scanBoolRegs (prog : Program) : Nat :=
  min filterMaxBoolRegs ((prog.steps.getLast?.map (·.outBoolReg + 1)).getD 0)

/-- **The filter in `PhysicalSeqScan::GetData` on one row.** -/
def Evaluator.executeScan (E : Evaluator) (prog : Program) : Except FilterError Bool :=
  if prog.inputs = [] ∨ prog.exprs = [] ∨ prog.steps = [] then .ok true
  else match simpleFilterStep prog with
    | some t => E.evalIndexedTest prog.inputs t
    | none => E.evalGeneral prog (scanBoolRegs prog)

/-- `IsSimpleInt32JoinFilterInput`. -/
def simpleInt32Input (input : FilterInputDesc) : Bool :=
  input.decodeKind == input.sourceDecodeKind &&
    (input.decodeKind == .int32Char || input.decodeKind == .int32Date ||
      input.decodeKind == .int32Int4)

/-- `IsSimpleInt64JoinFilterInput`. -/
def simpleInt64Input (input : FilterInputDesc) : Bool :=
  input.decodeKind == input.sourceDecodeKind &&
    (input.decodeKind == .int64Int8 || input.decodeKind == .int64NumericScaled)

/-- Whether two inputs come from different sides of a join. -/
def otherSide (schema : Schema) (left right : FilterInputDesc) : Bool :=
  (schema left.attno).map (·.side) != (schema right.attno).map (·.side)

/-- The test of a simple join filter is on inputs of both sides that are not promoted. -/
def simpleJoinTest (schema : Schema) : FilterTest FilterInputDesc → Bool
  | .int32CmpVar _ left right =>
      otherSide schema left right && simpleInt32Input left && simpleInt32Input right
  | .int64CmpVar _ left right =>
      otherSide schema left right && simpleInt64Input left && simpleInt64Input right &&
        !(left.decodeKind == .int64NumericScaled && right.decodeKind == .int64NumericScaled &&
          left.numericScale != right.numericScale)
  | _ => false

/-- `TryBuildSimpleJoinFilterSpec`. -/
def simpleJoinFilterSpec (schema : Schema) (prog : Program) : Option (FilterTest FilterInputDesc) :=
  match prog.exprs, prog.steps with
  | [expr], [⟨.test t, out⟩] =>
      if expr.firstStepIdx = 0 ∧ expr.nSteps = 1 ∧ out = expr.outputBoolReg then
        (t.lookup (prog.inputs[·]?)).filter (simpleJoinTest schema)
      else none
  | _, _ => none

/-- `EvaluateSimpleJoinFilter`: the stored values compared as they are. -/
def evaluateSimpleJoinFilter (row : Row) : FilterTest FilterInputDesc → Bool
  | .int32CmpVar cmpOp left right =>
      cmpOp.holds (compare (row.getInt32 left.attno left.sourceDecodeKind).toInt
        (row.getInt32 right.attno right.sourceDecodeKind).toInt)
  | .int64CmpVar cmpOp left right =>
      cmpOp.holds (compare (row.int64 left.attno).value.toInt (row.int64 right.attno).value.toInt)
  | _ => false

/-- **The residual filter of `PhysicalHashJoin` on one pair of rows.** -/
def executeJoin (schema : Schema) (row : Row) (prog : Program) : Except FilterError Bool :=
  if prog.inputs = [] ∨ prog.exprs = [] ∨ prog.steps = [] then .ok true
  else match simpleJoinFilterSpec schema prog with
    | some t => .ok (evaluateSimpleJoinFilter row t)
    | none => (joinEvaluator row).evalGeneral prog (requiredFilterBoolRegs prog.exprs)

/-! ## The lowering for a join is sound -/

section JoinInputs
variable {schema : Schema} {inputs inputs' : List FilterInputDesc} {request : InputRequest}

theorem joinInput_registered {i : Nat} (h : joinInput schema request inputs = some (i, inputs'))
    (hown : OwnInputs schema inputs) : Registered schema request inputs i inputs' := by
  obtain ⟨d, hd, h⟩ := Option.bind_eq_some_iff.1 h
  have happ : OwnInputs schema (inputs ++ [d]) := by
    cases request with
    | own col =>
      obtain ⟨s, hs, hdesc⟩ := Option.bind_eq_some_iff.1 hd
      cases hdesc
      exact ownInputs_append_own hown hs
    | promoted col targetScale =>
      obtain ⟨s, hs, hdesc⟩ := Option.bind_eq_some_iff.1 hd
      cases hdesc
      exact ownInputs_append_promoted hown hs
  apply registered_of_find hown hd happ
  cases hfind : inputs.findIdx? (· == d) with
  | some j =>
    rw [hfind] at h
    cases h
    exact .inl ⟨rfl, rfl⟩
  | none =>
    rw [hfind] at h
    dsimp only at h
    by_cases hfull : filterMaxInputs ≤ inputs.length
    · rw [if_pos hfull] at h
      cases h
    · rw [if_neg hfull] at h
      cases h
      exact .inr ⟨rfl, rfl⟩

theorem joinInput_isSome {d : FilterInputDesc} (hd : requestDesc schema request = some d)
    (hlen : inputs.length < filterMaxInputs) :
    ∃ i inputs', joinInput schema request inputs = some (i, inputs') ∧
      inputs'.length ≤ inputs.length + 1 := by
  rw [joinInput, hd]
  show ∃ i inputs', (match inputs.findIdx? (· == d) with
    | some i => some (i, inputs)
    | none => if filterMaxInputs ≤ inputs.length then none
      else some (inputs.length, inputs ++ [d])) = some (i, inputs') ∧ _
  cases inputs.findIdx? (· == d) with
  | some j => exact ⟨j, inputs, rfl, Nat.le_succ _⟩
  | none =>
    dsimp only
    rw [if_neg (not_le.2 hlen)]
    exact ⟨_, _, rfl, by rw [List.length_append, List.length_singleton]⟩

end JoinInputs

/-- Inputs registered before those of a test only add to the list. -/
theorem TestRegistered.after {schema : Schema} {t : FilterTest InputRequest} {t' : FilterTest Nat}
    {inputs middle inputs' : List FilterInputDesc} (hbefore : inputs <+: middle)
    (h : TestRegistered schema t middle t' inputs') : TestRegistered schema t inputs t' inputs' :=
  ⟨h.own, hbefore.trans h.extends_, h.means⟩

theorem joinLowering_sound (T : TypeSupport) (schema : Schema) :
    (joinLowering T schema).Sound schema := by
  intro t t' inputs inputs' h hown
  obtain ⟨middle, hmiddle, h⟩ := Option.bind_eq_some_iff.1 h
  have hpre : OwnInputs schema middle ∧ inputs <+: middle := by
    split at hmiddle
    · obtain ⟨⟨i, inputs₁⟩, hl, hmiddle⟩ := Option.bind_eq_some_iff.1 hmiddle
      obtain ⟨⟨j, inputs₂⟩, hr, hmiddle⟩ := Option.bind_eq_some_iff.1 hmiddle
      cases hmiddle
      have hleft := joinInput_registered hl hown
      have hright := joinInput_registered hr hleft.own
      exact ⟨hright.own, hleft.extends_.trans hright.extends_⟩
    · cases hmiddle
      exact ⟨hown, List.prefix_rfl⟩
  have hspec : TestRegistered schema t middle t' inputs' :=
    FilterTest.register_spec joinInput_registered h hpre.1
  exact hspec.after hpre.2

/-! ## A lowered filter has inputs, and its last step has its register -/

/-- The end of a program after a predicate was lowered. -/
structure EndsIn (s : LowerState) (out : Nat) : Prop where
  inputs : s.inputs ≠ []
  last : ∃ op, s.steps.getLast? = some ⟨op, out⟩

theorem endsIn_push {s : LowerState} (hinputs : s.inputs ≠ []) (op : FilterStepOp) :
    EndsIn (s.push op).2 (s.push op).1 := ⟨hinputs, op, List.getLast?_concat⟩

theorem FilterTest.lookup_nil {α : Type} (t : FilterTest Nat) :
    t.lookup (([] : List α)[·]?) = none := by
  cases t <;> rfl

section EndsIn
variable {L : Lowering} {schema : Schema}

theorem Lowering.compare_endsIn (hL : L.Sound schema) {c : Compare} {s s' : LowerState} {out : Nat}
    (h : L.compare c s = some (out, s')) (hown : OwnInputs schema s.inputs) : EndsIn s' out := by
  obtain ⟨test, htest, h⟩ := Option.bind_eq_some_iff.1 h
  obtain ⟨⟨t, inputs⟩, hreg, h⟩ := Option.bind_eq_some_iff.1 h
  obtain ⟨td, -, hmeans⟩ := (hL hreg hown).means
  have hne : inputs ≠ [] := by
    rintro rfl
    have hnil := hmeans [] List.prefix_rfl
    rw [FilterTest.lookup_nil] at hnil
    cases hnil
  have h : LowerState.finishStep ⟨inputs, s.steps, s.nextBoolReg⟩ (c.name == .notLike) (.test t) =
    some (out, s') := h
  rw [LowerState.finishStep] at h
  by_cases hneg : (c.name == .notLike) = true
  · rw [if_pos hneg] at h
    split at h
    · cases h
    · cases h
      exact endsIn_push hne _
  · rw [if_neg hneg] at h
    cases h
    exact endsIn_push hne _

mutual

theorem Lowering.boolExpr_endsIn (hL : L.Sound schema) (E : Evaluator) :
    ∀ (e : Expr) {s s' : LowerState} {out : Nat}, L.boolExpr e s = some (out, s') →
      OwnInputs schema s.inputs → EndsIn s' out
  | .compare c, s, s', out, h, hown => by
    rw [Lowering.boolExpr] at h
    exact Lowering.compare_endsIn hL h hown
  | .not child, s, s', out, h, hown => by
    rw [Lowering.boolExpr] at h
    split at h
    · cases h
    · obtain ⟨⟨out₁, s₁⟩, hchild, h⟩ := Option.bind_eq_some_iff.1 h
      cases h
      exact endsIn_push (Lowering.boolExpr_endsIn hL E child hchild hown).inputs _
  | .bool _ [], s, s', out, h, _ => by
    rw [Lowering.boolExpr] at h
    cases h
  | .bool type (child :: children), s, s', out, h, hown => by
    rw [Lowering.boolExpr] at h
    obtain ⟨⟨left, s₁⟩, hchild, h⟩ := Option.bind_eq_some_iff.1 h
    have hlow := Lowering.boolExpr_lowered hL E child hchild hown (fun _ => True)
    exact Lowering.boolChildren_endsIn hL E children type h hlow.own
      (Lowering.boolExpr_endsIn hL E child hchild hown)

theorem Lowering.boolChildren_endsIn (hL : L.Sound schema) (E : Evaluator) :
    ∀ (children : List Expr) (type : BoolExprType) {left out : Nat} {s s' : LowerState},
      L.boolChildren type children left s = some (out, s') → OwnInputs schema s.inputs →
        EndsIn s left → EndsIn s' out
  | [], type, left, out, s, s', h, _, hends => by
    rw [Lowering.boolChildren] at h
    cases h
    exact hends
  | child :: children, type, left, out, s, s', h, hown, _ => by
    rw [Lowering.boolChildren] at h
    split at h
    · cases h
    · obtain ⟨⟨right, s₁⟩, hchild, h⟩ := Option.bind_eq_some_iff.1 h
      have hlow := Lowering.boolExpr_lowered hL E child hchild hown (fun _ => True)
      have hends := Lowering.boolExpr_endsIn hL E child hchild hown
      exact Lowering.boolChildren_endsIn hL E children type h hlow.own
        (endsIn_push hends.inputs _)

end

/-- The end of a lowered program. -/
theorem Lowering.filtersFrom_endsIn (hL : L.Sound schema) (E : Evaluator) {filters : List Expr}
    {s : LowerState} {exprs : List FilterExprDesc} {prog : Program}
    (h : L.filtersFrom filters s exprs = some prog) (hown : OwnInputs schema s.inputs)
    (hends : filters = [] → ∃ out, out + 1 = s.nextBoolReg ∧ EndsIn s out) :
    ∃ out nextBoolReg, out + 1 = s.nextBoolReg + filterRegisters filters ∧
      EndsIn ⟨prog.inputs, prog.steps, nextBoolReg⟩ out := by
  induction filters generalizing s exprs with
  | nil =>
    cases h
    obtain ⟨out, hout, hends⟩ := hends rfl
    exact ⟨out, s.nextBoolReg, hout, hends⟩
  | cons filter filters ih =>
    obtain ⟨⟨out, s'⟩, hexpr, h⟩ := Option.bind_eq_some_iff.1 h
    obtain ⟨exprs', -, h⟩ := Option.bind_eq_some_iff.1 h
    have hlow := Lowering.boolExpr_lowered hL E filter hexpr hown (fun _ => True)
    have hlast := Lowering.boolExpr_endsIn hL E filter hexpr hown
    obtain ⟨last, next, hnext, hprog⟩ := ih h hlow.own fun _ => ⟨out, hlow.out_next, hlast⟩
    refine ⟨last, next, ?_, hprog⟩
    rw [hnext, hlow.next, Nat.add_assoc]
    rfl

theorem Lowering.filters_endsIn (hL : L.Sound schema) (E : Evaluator) {filters : List Expr}
    {prog : Program} (h : L.filters filters = some prog) (hne : filters ≠ []) :
    prog.inputs ≠ [] ∧ ∃ op out, prog.steps.getLast? = some ⟨op, out⟩ ∧
      out + 1 = filterRegisters filters := by
  obtain ⟨out, next, hout, hends⟩ :=
    Lowering.filtersFrom_endsIn hL E h ownInputs_nil fun hnil => absurd hnil hne
  obtain ⟨op, hlast⟩ := hends.last
  exact ⟨hends.inputs, op, out, hlast, hout.trans (Nat.zero_add _)⟩

end EndsIn

/-! ## The scan and the join run their programs -/

section Run
variable {schema : Schema} {filters : List Expr} {prog : Program}

/-- A lowered program is empty only for no filters. -/
theorem filters_empty_iff {L : Lowering} (hL : L.Sound schema) (E : Evaluator)
    (h : L.filters filters = some prog) :
    (prog.inputs = [] ∨ prog.exprs = [] ∨ prog.steps = []) ↔ filters = [] := by
  constructor
  · intro hempty
    by_contra hne
    obtain ⟨hinputs, op, out, hlast, -⟩ := Lowering.filters_endsIn hL E h hne
    rcases hempty with hnil | hnil | hnil
    · exact hinputs hnil
    · exact hne (filters_eq_nil hL E h hnil)
    · rw [hnil] at hlast
      cases hlast
  · rintro rfl
    cases h
    exact .inl rfl

/-- **The scan computes its filters.** -/
theorem Lowering.executeScan_eq {L : Lowering} (hL : L.Sound schema) (E : Evaluator)
    (h : L.filters filters = some prog) :
    E.executeScan prog =
      if filterRegisters filters ≤ filterMaxBoolRegs then
        twoValuedFilters (L.reading schema E) filters
      else .error .outOfBounds := by
  rw [Evaluator.executeScan]
  by_cases hempty : prog.inputs = [] ∨ prog.exprs = [] ∨ prog.steps = []
  · obtain rfl : filters = [] := (filters_empty_iff hL E h).1 hempty
    rw [if_pos hempty]
    rfl
  · rw [if_neg hempty]
    have hne : filters ≠ [] := fun hnil => hempty ((filters_empty_iff hL E h).2 hnil)
    obtain ⟨-, op, out, hlast, hout⟩ := Lowering.filters_endsIn hL E h hne
    have hregs : scanBoolRegs prog = min filterMaxBoolRegs (filterRegisters filters) := by
      rw [scanBoolRegs, hlast, ← hout]
      rfl
    have hgeneral : E.evalGeneral prog (scanBoolRegs prog) =
        if filterRegisters filters ≤ filterMaxBoolRegs then
          twoValuedFilters (L.reading schema E) filters
        else .error .outOfBounds := by
      refine (Lowering.filters_lowered hL E h).evalGeneral_eq ?_
      intro hfits
      rw [hregs, min_eq_right hfits]
    cases ht : simpleFilterStep prog with
    | none => exact hgeneral
    | some t =>
      rw [← hgeneral]
      refine (evalGeneral_simple hL E h ht ?_).symm
      rw [hregs]
      exact lt_min (by decide) (by omega)

theorem numeric_kinds {left right : FilterInputDesc}
    (hscale : (left.decodeKind == .int64NumericScaled && right.decodeKind == .int64NumericScaled &&
      left.numericScale != right.numericScale) = false) :
    (left.decodeKind = .int64NumericScaled → right.decodeKind = .int64NumericScaled →
      left.numericScale = right.numericScale) := by
  intro hl hr
  by_contra hne
  simp [hl, hr, hne] at hscale

theorem joinInt64_own {row : Row} {input : FilterInputDesc} (h : simpleInt64Input input = true) :
    joinInt64 row input = (row.int64 input.attno).value := by
  simp only [simpleInt64Input, Bool.and_eq_true, Bool.or_eq_true, beq_iff_eq] at h
  obtain ⟨hsource, hkind | hkind⟩ := h
  · rw [joinInt64, ← hsource, hkind]
  · rw [joinInt64, ← hsource, hkind]

/-- The comparison of a simple join filter is the one of its step. -/
theorem evaluateSimpleJoinFilter_eq {row : Row} {t : FilterTest FilterInputDesc}
    (h : simpleJoinTest schema t = true) :
    (joinEvaluator row).evalTest t = .ok (evaluateSimpleJoinFilter row t) := by
  cases t with
  | int32CmpVar cmpOp left right => rfl
  | int64CmpVar cmpOp left right =>
    simp only [simpleJoinTest, Bool.and_eq_true, Bool.not_eq_true'] at h
    obtain ⟨⟨⟨-, hl⟩, hr⟩, hscale⟩ := h
    have hvl : (joinEvaluator row).int64 left = (row.int64 left.attno).value := joinInt64_own hl
    have hvr : (joinEvaluator row).int64 right = (row.int64 right.attno).value := joinInt64_own hr
    by_cases hboth : left.decodeKind = .int64NumericScaled ∧ right.decodeKind = .int64NumericScaled
    · rw [evalTest_numerics rfl hboth.1 hboth.2,
        rescaledAnswer_of_eq (numeric_kinds hscale hboth.1 hboth.2), hvl, hvr]
      rfl
    · have hplain : ((joinEvaluator row).rescales && left.decodeKind == .int64NumericScaled &&
          right.decodeKind == .int64NumericScaled) = false := by
        rw [Bool.eq_false_iff]
        intro h
        simp only [Bool.and_eq_true, beq_iff_eq] at h
        exact hboth ⟨h.1.2, h.2⟩
      have hnull : ((joinEvaluator row).isNull left || (joinEvaluator row).isNull right) = false := rfl
      rw [Evaluator.evalTest, hnull, hplain, hvl, hvr]
      rfl
  | int32CmpConst cmpOp left value => cases h
  | int64CmpConst cmpOp left value => cases h
  | stringConst op left bytes => cases h

/-- A simple join filter is a single test. -/
theorem simpleJoinFilterSpec_spec {t : FilterTest FilterInputDesc}
    (h : simpleJoinFilterSpec schema prog = some t) :
    ∃ t', simpleFilterStep prog = some t' ∧ t'.lookup (prog.inputs[·]?) = some t ∧
      simpleJoinTest schema t = true := by
  unfold simpleJoinFilterSpec at h
  split at h
  · next expr t' out hexprs hsteps =>
    by_cases hexpr : expr.firstStepIdx = 0 ∧ expr.nSteps = 1 ∧ out = expr.outputBoolReg
    · rw [if_pos hexpr, Option.filter_eq_some_iff] at h
      refine ⟨t', ?_, h.1, h.2⟩
      simp [simpleFilterStep, hexprs, hsteps, hexpr]
    · rw [if_neg hexpr] at h
      cases h
  · cases h

/-- **The join computes its filters.** -/
theorem Lowering.executeJoin_eq {L : Lowering} (hL : L.Sound schema) (row : Row)
    (h : L.filters filters = some prog) :
    executeJoin schema row prog =
      if filterRegisters filters ≤ filterMaxBoolRegs then
        twoValuedFilters (L.reading schema (joinEvaluator row)) filters
      else .error .outOfBounds := by
  have hlow := Lowering.filters_lowered hL (joinEvaluator row) h
  have hregs : requiredFilterBoolRegs prog.exprs = filterRegisters filters := by
    obtain ⟨new, hnew, -, hmax, -⟩ := hlow.exprs
    rw [requiredFilterBoolRegs, hnew, List.nil_append, hmax, Nat.zero_add]
  have hgeneral := @FiltersLowered.evalGeneral_eq L schema filters prog (joinEvaluator row) hlow
    (requiredFilterBoolRegs prog.exprs) fun _ => hregs.ge
  rw [executeJoin]
  by_cases hempty : prog.inputs = [] ∨ prog.exprs = [] ∨ prog.steps = []
  · obtain rfl : filters = [] := (filters_empty_iff hL (joinEvaluator row) h).1 hempty
    rw [if_pos hempty]
    rfl
  · rw [if_neg hempty]
    cases ht : simpleJoinFilterSpec schema prog with
    | none => exact hgeneral
    | some t =>
      obtain ⟨t', hsimple, hlookup, htest⟩ := simpleJoinFilterSpec_spec ht
      have hpos : 0 < requiredFilterBoolRegs prog.exprs := by
        rw [hregs, (simpleFilterStep_registers hL (joinEvaluator row) h hsimple).1]
        exact Nat.one_pos
      rw [← hgeneral, evalGeneral_simple hL (joinEvaluator row) h hsimple hpos,
        Evaluator.evalIndexedTest, hlookup]
      exact (evaluateSimpleJoinFilter_eq htest).symm

end Run

/-! ## Tests that are read alike -/

/-- The tokens of a pattern, each searched from where the last one ended, end the text. -/
def tokensEnd (pattern text : Bytes) : Bool :=
  matchTokens (pattern.head? != some percent) pattern [] true text == some []

/-- What a comparison with a literal says of the value stored in a slot, NULL or not. -/
def storedConst (T : TypeSupport) (s : ColumnSchema) (row : Row) (name : CompareName) (col : Nat)
    (text : Bytes) (flip : Bool) : Bool :=
  let answer (o : Ordering) : Bool :=
    (mapComparisonNameToQualOp name).any fun cmpOp => cmpOp.holds (orient flip o)
  match s.decodeKind with
  | .int32Date => (T.dateIn text).any fun k => answer (compare (row.int32 col).value.toInt k.toInt)
  | .int32Int4 => (T.int4In text).any fun k => answer (compare (row.int32 col).value.toInt k.toInt)
  | .int32Char => text.head?.any fun c =>
      answer (compare ((row.char col).value.toNat : Int) c.toNat)
  | .int64Int8 => (T.int8In text).any fun k => answer (compare (row.int64 col).value.toInt k.toInt)
  | .int64NumericScaled => (T.numericIn text).any fun q =>
      let typmodScale := (toInt8 (extractNumericTypmodScale s.typmod)).toNat
      answer (compare (row.int64 col).value.toInt (roundHalfAway (q * 10 ^ typmodScale)))
  | .stringRef =>
      let v : Bytes := (row.string col).value.val
      match name with
      | .eq => (T.stringIn s.typeOid s.typmod text).any fun bytes => v == bytes
      | .ne => (T.stringIn s.typeOid s.typmod text).any fun bytes => v != bytes
      | .like | .notLike =>
          match likeReadAs text with
          | some pattern => percentLike pattern v
          | none => tokensEnd text v
      | _ => false
  | .doubleFloat8 => false

/-- **When a column against a literal is read alike.** On a NULL only the join compares,
and it compares what is left in the slot. A LIKE pattern with an inner `%` that does not
end in `%` is never matched by the standalone filter. -/
def ConstReadAlike (T : TypeSupport) (s : ColumnSchema) (row : Row) (name : CompareName) (col : Nat)
    (text : Bytes) (flip : Bool) : Prop :=
  if row.isNull col s.decodeKind then storedConst T s row name col text flip = false
  else s.decodeKind = .stringRef → (name = .like ∨ name = .notLike) → likeReadAs text = none →
    tokensEnd text (row.string col).value.val = false

/-- The number a stored integer or numeric stands for. -/
def storedNumber (row : Row) (col : Nat) (s : ColumnSchema) : ℚ :=
  integerValue row col s.decodeKind / 10 ^ inputScale s

/-- The integer a scan compares: a promoted four-byte integer has the high half of its
slot. -/
def scannedInteger (scratch : FilterInputDesc → Int64) (row : Row) (col : Nat) (s other : ColumnSchema)
    (targetScale : Nat) : Int :=
  if s.decodeKind = .int32Int4 ∧ other.decodeKind ≠ .int32Int4 then
    (storeInt32 (scratch (promotedDesc col s targetScale)) (row.int32 col).value).toInt
  else integerValue row col s.decodeKind

/-- **When a column against a column is read alike.** Two numbers have to fit at the
larger scale, and what the scan compares has to compare as the numbers do; with a NULL
operand, the values left in the slots must not satisfy the comparison. -/
def VarReadAlike (sl sr : ColumnSchema) (scratch : FilterInputDesc → Int64) (row : Row)
    (name : CompareName) (left right : Nat) : Prop :=
  ∀ cmpOp, mapComparisonNameToQualOp name = some cmpOp →
    let null := row.isNull left sl.decodeKind || row.isNull right sr.decodeKind
    if isNumericFamily sl.decodeKind && isNumericFamily sr.decodeKind then
      let scale := max (inputScale sl) (inputScale sr)
      let numbers := cmpOp.holds (compare (storedNumber row left sl) (storedNumber row right sr))
      let scanned := cmpOp.holds (compare
        (scannedInteger scratch row left sl sr (scanTargetScale sl sr))
        (scannedInteger scratch row right sr sl (scanTargetScale sl sr)))
      (RescaleFits (integerValue row left sl.decodeKind) (inputScale sl) scale ∧
        RescaleFits (integerValue row right sr.decodeKind) (inputScale sr) scale) ∧
        if null then numbers = false else scanned = numbers
    else null = true → cmpOp.holds (compare (row.getInt32 left sl.decodeKind).toInt
      (row.getInt32 right sr.decodeKind).toInt) = false

/-- **When the three readings of a comparison agree.** -/
def ReadAlike (T : TypeSupport) (schema : Schema) (scratch : FilterInputDesc → Int64) (row : Row)
    (c : Compare) : Prop :=
  match c.left, c.right with
  | .column col, .constant value => ∀ s text, schema col = some s → value = some text →
      ConstReadAlike T s row c.name col text false
  | .constant value, .column col => ∀ s text, schema col = some s → value = some text →
      ConstReadAlike T s row c.name col text true
  | .column left, .column right => ∀ sl sr, schema left = some sl → schema right = some sr →
      VarReadAlike sl sr scratch row c.name left right
  | .constant _, .constant _ => True

/-- Three results are the same answer. -/
def Agree (scan filter join : Except FilterError Bool) : Prop :=
  ∃ b, scan = .ok b ∧ filter = .ok b ∧ join = .ok b

theorem agree_negate_iff {scan filter join : Except FilterError Bool} (n : Bool) :
    Agree (scan >>= fun b => .ok (b ^^ n)) (filter >>= fun b => .ok (b ^^ n))
        (join >>= fun b => .ok (b ^^ n)) ↔ Agree scan filter join := by
  have hone : ∀ (r : Except FilterError Bool) (b : Bool),
      (r >>= fun b => .ok (b ^^ n)) = .ok b ↔ r = .ok (b ^^ n) := by
    intro r b
    cases r with
    | error e => exact ⟨fun h => (by cases h), fun h => (by cases h)⟩
    | ok a =>
      show Except.ok (a ^^ n) = .ok b ↔ Except.ok a = .ok (b ^^ n)
      simp only [Except.ok.injEq]
      cases a <;> cases b <;> cases n <;> decide
  constructor
  · rintro ⟨b, h₁, h₂, h₃⟩
    exact ⟨b ^^ n, (hone scan b).1 h₁, (hone filter b).1 h₂, (hone join b).1 h₃⟩
  · rintro ⟨b, h₁, h₂, h₃⟩
    have hback : b = (b ^^ n ^^ n) := by cases b <;> cases n <;> rfl
    rw [hback] at h₁ h₂ h₃
    exact ⟨b ^^ n, (hone scan _).2 h₁, (hone filter _).2 h₂, (hone join _).2 h₃⟩

/-- The scan and the filter answer false for NULL, and the join compares what is there. -/
theorem agree_stored_iff {null scan filter join : Bool} :
    Agree (.ok (!null && scan)) (.ok (!null && filter)) (.ok join) ↔
      if null then join = false else scan = join ∧ filter = join := by
  cases null with
  | true =>
    simp only [Bool.not_true, Bool.false_and, if_true]
    constructor
    · rintro ⟨b, h₁, -, h₃⟩
      cases h₁
      cases h₃
      rfl
    · rintro rfl
      exact ⟨false, rfl, rfl, rfl⟩
  | false =>
    simp only [Bool.not_false, Bool.true_and, Bool.false_eq_true, if_false]
    constructor
    · rintro ⟨b, h₁, h₂, h₃⟩
      cases h₁
      cases h₂
      cases h₃
      exact ⟨rfl, rfl⟩
    · rintro ⟨rfl, rfl⟩
      exact ⟨_, rfl, rfl, rfl⟩

theorem agree_same_iff {null x : Bool} :
    Agree (.ok (!null && x)) (.ok (!null && x)) (.ok x) ↔ (null = true → x = false) := by
  rw [agree_stored_iff]
  cases null with
  | true => exact ⟨fun h _ => h, fun h => h rfl⟩
  | false => exact iff_of_true ⟨rfl, rfl⟩ fun h => nomatch h

/-- The join's answer is one of numbers that fit, and the filter's is the same where they
do. -/
theorem agree_numbers_iff {null scanned numbers : Bool} {filter join : Except FilterError Bool}
    {fits : Prop} (hjoin : ∀ x, join = .ok x ↔ fits ∧ numbers = x)
    (hfilter : fits → filter = .ok numbers) :
    Agree (.ok (!null && scanned)) (if null then .ok false else filter) join ↔
      fits ∧ if null then numbers = false else scanned = numbers := by
  constructor
  · rintro ⟨b, h₁, -, h₃⟩
    obtain ⟨hfits, rfl⟩ := (hjoin b).1 h₃
    refine ⟨hfits, ?_⟩
    cases null with
    | true => exact (Except.ok.inj h₁).symm
    | false => exact Except.ok.inj h₁
  · rintro ⟨hfits, h⟩
    cases null with
    | true => exact ⟨false, rfl, rfl, (hjoin false).2 ⟨hfits, h⟩⟩
    | false =>
      exact ⟨numbers, congrArg Except.ok h, hfilter hfits, (hjoin numbers).2 ⟨hfits, rfl⟩⟩

/-! ## A column against a literal -/

theorem matchPercentLikeToEnd_of_end {pattern : Bytes} (hend : pattern.getLast? = some percent)
    (lhs : Bytes) : matchPercentLikeToEnd lhs pattern = percentLike pattern lhs := by
  have hne : pattern ≠ [] := by
    rintro rfl
    cases hend
  rw [← matchTokens_eq_percentLike hend, matchPercentLikeToEnd, if_neg hne, hend]
  cases matchTokens (pattern.head? != some percent) pattern [] true lhs with
  | none => rfl
  | some rest => rfl

theorem matchPercentLikeToEnd_of_not_end {pattern : Bytes} (hne : pattern ≠ [])
    (hend : pattern.getLast? ≠ some percent) (lhs : Bytes) :
    matchPercentLikeToEnd lhs pattern = tokensEnd pattern lhs := by
  have hlast : (pattern.getLast? == some percent) = false := beq_false_of_ne hend
  rw [matchPercentLikeToEnd, if_neg hne, hlast, tokensEnd]
  cases matchTokens (pattern.head? != some percent) pattern [] true lhs with
  | none => rfl
  | some rest => cases rest <;> rfl

section ConstAgree
variable {T : TypeSupport} {schema : Schema} {scratch : FilterInputDesc → Int64} {row : Row}
  {s : ColumnSchema} {name : CompareName} {col : Nat} {text : Bytes} {flip : Bool}

/-- The three tests of a literal that says the same of the stored value for all. -/
theorem agree_iff_constReadAlike {x : Bool}
    (hstored : storedConst T s row name col text flip = x)
    (hlike : s.decodeKind = .stringRef → (name = .like ∨ name = .notLike) →
      likeReadAs text = none → x = false) :
    Agree (.ok (!row.isNull col s.decodeKind && x)) (.ok (!row.isNull col s.decodeKind && x)) (.ok x) ↔
      ConstReadAlike T s row name col text flip := by
  rw [agree_stored_iff, ConstReadAlike, hstored]
  by_cases hnull : row.isNull col s.decodeKind = true
  · rw [if_pos hnull, if_pos hnull]
  · rw [if_neg hnull, if_neg hnull]
    refine iff_of_true ⟨rfl, rfl⟩ ?_
    intro hkind hname hread
    have hfalse := hlike hkind hname hread
    rw [← hstored] at hfalse
    rcases hname with rfl | rfl
    · simpa [storedConst, hkind, hread] using hfalse
    · simpa [storedConst, hkind, hread] using hfalse

theorem agree_int32CmpConst {cmpOp : QualOp} {value : Int32} (hkind : s.decodeKind ≠ .stringRef)
    (hstored : storedConst T s row name col text flip =
      (orientOp flip name cmpOp).holds
        (compare (row.getInt32 col s.decodeKind).toInt value.toInt)) :
    Agree ((scanEvaluator scratch row).evalTest
        (.int32CmpConst (orientOp flip name cmpOp) (ownDesc col s) value))
      ((filterEvaluator row).evalTest
        (.int32CmpConst (orientOp flip name cmpOp) (ownDesc col s) value))
      ((joinEvaluator row).evalTest
        (.int32CmpConst (orientOp flip name cmpOp) (ownDesc col s) value)) ↔
      ConstReadAlike T s row name col text flip :=
  agree_iff_constReadAlike hstored fun h => absurd h hkind

theorem agree_int64CmpConst {cmpOp : QualOp} {value : Int64}
    (hkind : s.decodeKind = .int64Int8 ∨ s.decodeKind = .int64NumericScaled)
    (hstored : storedConst T s row name col text flip =
      (orientOp flip name cmpOp).holds (compare (row.int64 col).value.toInt value.toInt)) :
    Agree ((scanEvaluator scratch row).evalTest
        (.int64CmpConst (orientOp flip name cmpOp) (ownDesc col s) value))
      ((filterEvaluator row).evalTest
        (.int64CmpConst (orientOp flip name cmpOp) (ownDesc col s) value))
      ((joinEvaluator row).evalTest
        (.int64CmpConst (orientOp flip name cmpOp) (ownDesc col s) value)) ↔
      ConstReadAlike T s row name col text flip := by
  have hscan : scanInt64 scratch row (ownDesc col s) = (row.int64 col).value := by
    rcases hkind with h | h <;> simp [scanInt64, ownDesc, h]
  have hfilter : populateInt64 row (ownDesc col s) = (row.int64 col).value := by
    rcases hkind with h | h <;> simp [populateInt64, ownDesc, h]
  have hjoin : joinInt64 row (ownDesc col s) = (row.int64 col).value := by
    rcases hkind with h | h <;> simp [joinInt64, ownDesc, h]
  have hne : s.decodeKind ≠ .stringRef := by
    rcases hkind with h | h <;> rw [h] <;> decide
  rw [← agree_iff_constReadAlike hstored fun h => absurd h hne]
  simp only [Evaluator.evalTest, scanEvaluator, filterEvaluator, joinEvaluator, hscan, hfilter, hjoin]
  exact Iff.rfl

theorem agree_stringConst {op : StringTest} {bytes : Bytes} {x : Bool}
    (hscan : (scanEvaluator scratch row).evalString op (row.string col).value.val bytes = x) :
    Agree ((scanEvaluator scratch row).evalTest (.stringConst op (ownDesc col s) bytes))
      ((filterEvaluator row).evalTest (.stringConst op (ownDesc col s) bytes))
      ((joinEvaluator row).evalTest (.stringConst op (ownDesc col s) bytes)) ↔
      Agree (.ok (!row.isNull col s.decodeKind && x))
        (.ok (!row.isNull col s.decodeKind &&
          (filterEvaluator row).evalString op (row.string col).value.val bytes)) (.ok x) := by
  rw [← hscan]
  exact Iff.rfl

/-- **The three tests of a column against a literal agree where it is read alike.** -/
theorem ConstTest.agree_iff {t : FilterTest InputRequest} {td : FilterTest FilterInputDesc}
    (h : ConstTest T s name col text t) (hs : schema col = some s)
    (htd : (orientTest flip name t).lookup (requestDesc schema) = some td) :
    Agree ((scanEvaluator scratch row).evalTest td) ((filterEvaluator row).evalTest td)
        ((joinEvaluator row).evalTest td) ↔
      ConstReadAlike T s row name col text flip := by
  have hown := lookup_own hs
  cases h with
  | @date cmpOp value hkind hop hvalue =>
    rw [orientTest_int32CmpConst, (FilterTest.lookup_one _ _).1, hown] at htd
    cases htd
    apply agree_int32CmpConst (by rw [hkind]; decide)
    simp [storedConst, hkind, hvalue, hop, orientOp_holds hop, Row.getInt32]
  | @int4 cmpOp value hkind hop hvalue =>
    rw [orientTest_int32CmpConst, (FilterTest.lookup_one _ _).1, hown] at htd
    cases htd
    apply agree_int32CmpConst (by rw [hkind]; decide)
    simp [storedConst, hkind, hvalue, hop, orientOp_holds hop, Row.getInt32]
  | @char cmpOp ch hkind hop hvalue =>
    rw [orientTest_int32CmpConst, (FilterTest.lookup_one _ _).1, hown] at htd
    cases htd
    apply agree_int32CmpConst (by rw [hkind]; decide)
    have hleft : (row.getInt32 col s.decodeKind).toInt = (row.char col).value.toNat := by
      rw [hkind]
      exact toInt_ofByte _
    rw [hleft, toInt_ofByte, orientOp_holds hop]
    simp [storedConst, hkind, hvalue, hop]
  | @int8 cmpOp value hkind hop hvalue =>
    rw [orientTest_int64CmpConst, (FilterTest.lookup_one _ _).2.1, hown] at htd
    cases htd
    apply agree_int64CmpConst (.inl hkind)
    simp [storedConst, hkind, hvalue, hop, orientOp_holds hop]
  | @numeric cmpOp value hkind hop hvalue =>
    rw [orientTest_int64CmpConst, (FilterTest.lookup_one _ _).2.1, hown] at htd
    cases htd
    apply agree_int64CmpConst (.inr hkind)
    obtain ⟨q, hq, hscaled⟩ := scaleNumericConstant_spec hvalue
    simp [storedConst, hkind, hq, hop, orientOp_holds hop, hscaled]
  | @eq bytes hkind hname hvalue =>
    subst hname
    rw [orientTest_stringConst, (FilterTest.lookup_one _ _).2.2, hown] at htd
    cases htd
    rw [agree_stringConst rfl]
    apply agree_iff_constReadAlike
    · simp [storedConst, hkind, hvalue, Evaluator.evalString]
    · rintro - (h | h) <;> cases h
  | @ne bytes hkind hname hvalue =>
    subst hname
    rw [orientTest_stringConst, (FilterTest.lookup_one _ _).2.2, hown] at htd
    cases htd
    rw [agree_stringConst rfl]
    apply agree_iff_constReadAlike
    · simp [storedConst, hkind, hvalue, Evaluator.evalString]
    · rintro - (h | h) <;> cases h
  | like hkind hname hvalue =>
    obtain ⟨op, bytes, rfl, hshape, hmatch⟩ := buildLikeTest_spec hvalue
    rw [orientTest_stringConst, (FilterTest.lookup_one _ _).2.2, hown] at htd
    cases htd
    have hstored : storedConst T s row name col text flip = match likeReadAs text with
        | some pattern => percentLike pattern (row.string col).value.val
        | none => tokensEnd text (row.string col).value.val := by
      rcases hname with rfl | rfl <;> simp [storedConst, hkind]
    have hfilter := hmatch row (row.string col).value
    by_cases hread : likeReadAs text = none
    · -- The pattern is left as it is, and only the scan and the join ever match it.
      rw [hread] at hstored hfilter
      rcases hshape with ⟨-, hsome⟩ | ⟨rfl, rfl, hne, hwhole⟩
      · rw [hread] at hsome
        cases hsome
      · have hend : bytes.getLast? ≠ some percent := by
          intro hend
          rw [hread, if_pos hend] at hwhole
          cases hwhole
        have hscan : (scanEvaluator scratch row).evalString .sqlLike (row.string col).value.val
            bytes = tokensEnd bytes (row.string col).value.val :=
          matchPercentLikeToEnd_of_not_end hne hend _
        have hfalse : (filterEvaluator row).evalString .sqlLike (row.string col).value.val bytes =
            false := hfilter
        rw [agree_stringConst hscan, hfalse, agree_stored_iff, ConstReadAlike, hstored]
        by_cases hnull : row.isNull col s.decodeKind = true
        · rw [if_pos hnull, if_pos hnull]
        · rw [if_neg hnull, if_neg hnull]
          constructor
          · rintro ⟨-, hjoin⟩ - - -
            exact hjoin.symm
          · intro h
            exact ⟨rfl, (h hkind hname hread).symm⟩
    · obtain ⟨pattern, hpattern⟩ := Option.ne_none_iff_exists'.1 hread
      rw [hpattern] at hstored hfilter
      have hscan : (scanEvaluator scratch row).evalString op (row.string col).value.val bytes =
          percentLike pattern (row.string col).value.val := by
        rcases hshape with ⟨rfl | rfl, -⟩ | ⟨rfl, rfl, hne, hwhole⟩
        · exact hfilter
        · exact hfilter
        · by_cases hend : bytes.getLast? = some percent
          · rw [if_pos hend, hpattern, Option.some.injEq] at hwhole
            rw [hwhole]
            exact matchPercentLikeToEnd_of_end hend _
          · rw [if_neg hend, hpattern] at hwhole
            cases hwhole
      have hvalue : (filterEvaluator row).evalString op (row.string col).value.val bytes =
          percentLike pattern (row.string col).value.val := hfilter
      rw [agree_stringConst hscan, hvalue]
      exact agree_iff_constReadAlike hstored fun _ _ h => absurd h hread

end ConstAgree

/-! ## A column against a column -/

theorem scanTargetScale_eq_max (sl sr : ColumnSchema) :
    scanTargetScale sl sr = max (inputScale sl) (inputScale sr) := by
  rw [scanTargetScale, inputScale, inputScale]
  omega

section Numbers
variable {row : Row} {s sl sr : ColumnSchema} {col left right m : Nat}

/-- Numbers compare as their stored values brought to one scale. -/
theorem compare_storedNumber (hl : inputScale sl ≤ m) (hr : inputScale sr ≤ m) :
    compare (storedNumber row left sl) (storedNumber row right sr) =
      compare (integerValue row left sl.decodeKind * 10 ^ (m - inputScale sl))
        (integerValue row right sr.decodeKind * 10 ^ (m - inputScale sr)) :=
  (compare_rescaled _ _ hl hr).symm

theorem compare_storedNumber_of_eq (h : inputScale sl = inputScale sr) :
    compare (storedNumber row left sl) (storedNumber row right sr) =
      compare (integerValue row left sl.decodeKind) (integerValue row right sr.decodeKind) := by
  rw [compare_storedNumber (m := inputScale sr) h.le le_rfl, h, Nat.sub_self, pow_zero, mul_one,
    mul_one]

/-- A number that fits at a scale is promoted to it without wrapping. -/
theorem populateInt64_promoted (hfamily : isNumericFamily s.decodeKind = true)
    (hnumeric : s.decodeKind = .int64NumericScaled → inputScale s = m)
    (hfits : RescaleFits (integerValue row col s.decodeKind) (inputScale s) m) :
    (populateInt64 row (promotedDesc col s m)).toInt =
      integerValue row col s.decodeKind * 10 ^ (m - inputScale s) := by
  by_cases hkind : s.decodeKind = .int64NumericScaled
  · rw [populateInt64_numeric hkind, hnumeric hkind, Nat.sub_self, pow_zero, mul_one, hkind]
    rfl
  · have hzero := inputScale_of_ne hkind
    rw [populateInt64_integer (integer_kind hfamily hkind), hzero, Nat.sub_zero]
    rw [hzero] at hfits
    rcases hfits with rfl | ⟨-, hfits⟩
    · rw [pow_zero, mul_one, integerValue_bmod]
    · simp only [fitsInt64, Bool.and_eq_true, decide_eq_true_eq, Nat.sub_zero] at hfits
      exact Int.bmod_eq_of_le hfits.1 hfits.2

theorem promotedDesc_numericScale (hnumeric : s.decodeKind = .int64NumericScaled → inputScale s = m) :
    (promotedDesc col s m).numericScale = m := by
  by_cases hkind : s.decodeKind = .int64NumericScaled
  · rw [promotedDesc_scale_numeric hkind, hnumeric hkind]
  · exact promotedDesc_scale_integer hkind

/-- The join reads the integer as it is stored, and keeps its scale beside it. -/
theorem joinInt64_promoted (hfamily : isNumericFamily s.decodeKind = true) :
    (joinInt64 row (promotedDesc col s 0)).toInt = integerValue row col s.decodeKind ∧
      (promotedDesc col s 0).numericScale = inputScale s := by
  by_cases hkind : s.decodeKind = .int64NumericScaled
  · refine ⟨?_, promotedDesc_scale_numeric hkind⟩
    simp [joinInt64, promotedDesc, hkind, integerValue]
  · refine ⟨?_, by rw [promotedDesc_scale_integer hkind, inputScale_of_ne hkind]⟩
    rcases integer_kind hfamily hkind with h | h
    · simp [joinInt64, promotedDesc, h, integerValue, Row.getInt32]
    · simp [joinInt64, promotedDesc, h, integerValue]

theorem scanInt64_promoted {scratch : FilterInputDesc → Int64}
    (hfamily : isNumericFamily s.decodeKind = true) (hother : s.decodeKind ≠ sr.decodeKind) :
    (scanInt64 scratch row (promotedDesc col s m)).toInt =
      scannedInteger scratch row col s sr m := by
  by_cases hkind : s.decodeKind = .int32Int4
  · have hne : sr.decodeKind ≠ .int32Int4 := fun h => hother (hkind.trans h.symm)
    rw [scannedInteger, if_pos ⟨hkind, hne⟩]
    simp [scanInt64, promotedDesc, hkind, Row.getInt32]
  · rw [scannedInteger, if_neg fun h => hkind h.1]
    cases h : s.decodeKind <;> simp_all [isNumericFamily, scanInt64, promotedDesc, integerValue]

/-- What a test of scaled numerics answers, by the numbers it reads. -/
theorem rescaledAnswer_numbers {value : FilterInputDesc → Int64} {cmpOp : QualOp}
    {dl dr : FilterInputDesc} (hvl : (value dl).toInt = integerValue row left sl.decodeKind)
    (hsl : dl.numericScale = inputScale sl)
    (hvr : (value dr).toInt = integerValue row right sr.decodeKind)
    (hsr : dr.numericScale = inputScale sr) (x : Bool) :
    rescaledAnswer value cmpOp dl dr = .ok x ↔
      (RescaleFits (integerValue row left sl.decodeKind) (inputScale sl)
          (max (inputScale sl) (inputScale sr)) ∧
        RescaleFits (integerValue row right sr.decodeKind) (inputScale sr)
          (max (inputScale sl) (inputScale sr))) ∧
        cmpOp.holds (compare (storedNumber row left sl) (storedNumber row right sr)) = x := by
  rw [rescaledAnswer_eq_ok_iff, hvl, hvr, hsl, hsr,
    compare_storedNumber (le_max_left (inputScale sl) (inputScale sr)) (le_max_right _ _), and_assoc]

/-- The scan compares two integers as they stand in their slots. -/
theorem scan_int64CmpVar (scratch : FilterInputDesc → Int64) (cmpOp : QualOp)
    (dl dr : FilterInputDesc) :
    (scanEvaluator scratch row).evalTest (.int64CmpVar cmpOp dl dr) =
      .ok (!(row.isNull dl.attno dl.sourceDecodeKind || row.isNull dr.attno dr.sourceDecodeKind) &&
        cmpOp.holds (compare (scanInt64 scratch row dl).toInt (scanInt64 scratch row dr).toInt)) := by
  have hnull : ((scanEvaluator scratch row).isNull dl || (scanEvaluator scratch row).isNull dr) =
      (row.isNull dl.attno dl.sourceDecodeKind || row.isNull dr.attno dr.sourceDecodeKind) := rfl
  rw [Evaluator.evalTest, hnull]
  cases row.isNull dl.attno dl.sourceDecodeKind || row.isNull dr.attno dr.sourceDecodeKind with
  | true => rfl
  | false => rfl

theorem join_numerics {cmpOp : QualOp} {dl dr : FilterInputDesc}
    (hdl : dl.decodeKind = .int64NumericScaled) (hdr : dr.decodeKind = .int64NumericScaled) :
    (joinEvaluator row).evalTest (.int64CmpVar cmpOp dl dr) =
      rescaledAnswer (joinInt64 row) cmpOp dl dr :=
  evalTest_numerics rfl hdl hdr

end Numbers

section VarAgree
variable {scratch : FilterInputDesc → Int64} {row : Row} {sl sr : ColumnSchema}
  {name : CompareName} {left right : Nat} {cmpOp : QualOp}

/-- What it means that two columns of the numeric family are read alike. -/
theorem varReadAlike_numbers (hop : mapComparisonNameToQualOp name = some cmpOp)
    (hl : isNumericFamily sl.decodeKind = true) (hr : isNumericFamily sr.decodeKind = true) :
    VarReadAlike sl sr scratch row name left right ↔
      (RescaleFits (integerValue row left sl.decodeKind) (inputScale sl)
          (max (inputScale sl) (inputScale sr)) ∧
        RescaleFits (integerValue row right sr.decodeKind) (inputScale sr)
          (max (inputScale sl) (inputScale sr))) ∧
        if row.isNull left sl.decodeKind || row.isNull right sr.decodeKind then
          cmpOp.holds (compare (storedNumber row left sl) (storedNumber row right sr)) = false
        else cmpOp.holds (compare
          (scannedInteger scratch row left sl sr (scanTargetScale sl sr))
          (scannedInteger scratch row right sr sl (scanTargetScale sl sr))) =
            cmpOp.holds (compare (storedNumber row left sl) (storedNumber row right sr)) := by
  have hboth : (isNumericFamily sl.decodeKind && isNumericFamily sr.decodeKind) = true := by
    rw [hl, hr]
    rfl
  rw [VarReadAlike]
  constructor
  · intro h
    have hcase := h cmpOp hop
    dsimp only at hcase
    rw [if_pos hboth] at hcase
    exact hcase
  · intro h cmpOp' hop'
    obtain rfl := Option.some.inj (hop.symm.trans hop')
    dsimp only
    rw [if_pos hboth]
    exact h

theorem varReadAlike_others (hop : mapComparisonNameToQualOp name = some cmpOp)
    (hl : isNumericFamily sl.decodeKind = false) :
    VarReadAlike sl sr scratch row name left right ↔
      ((row.isNull left sl.decodeKind || row.isNull right sr.decodeKind) = true →
        cmpOp.holds (compare (row.getInt32 left sl.decodeKind).toInt
          (row.getInt32 right sr.decodeKind).toInt) = false) := by
  have hboth : ¬ (isNumericFamily sl.decodeKind && isNumericFamily sr.decodeKind) = true := by
    rw [hl]
    exact Bool.false_ne_true
  rw [VarReadAlike]
  constructor
  · intro h
    have hcase := h cmpOp hop
    dsimp only at hcase
    rw [if_neg hboth] at hcase
    exact hcase
  · intro h cmpOp' hop'
    obtain rfl := Option.some.inj (hop.symm.trans hop')
    dsimp only
    rw [if_neg hboth]
    exact h

/-- Columns of one kind with a scale of zero compare as they are stored. -/
theorem varReadAlike_same (hop : mapComparisonNameToQualOp name = some cmpOp)
    (hkind : sr.decodeKind = sl.decodeKind) (hl : isNumericFamily sl.decodeKind = true)
    (hne : sl.decodeKind ≠ .int64NumericScaled) :
    VarReadAlike sl sr scratch row name left right ↔
      ((row.isNull left sl.decodeKind || row.isNull right sr.decodeKind) = true →
        cmpOp.holds (compare (integerValue row left sl.decodeKind)
          (integerValue row right sr.decodeKind)) = false) := by
  have hzl := inputScale_of_ne hne
  have hzr : inputScale sr = 0 := inputScale_of_ne (hkind ▸ hne)
  have hscanl : scannedInteger scratch row left sl sr (scanTargetScale sl sr) =
      integerValue row left sl.decodeKind := if_neg fun h => h.2 (hkind.trans h.1)
  have hscanr : scannedInteger scratch row right sr sl (scanTargetScale sl sr) =
      integerValue row right sr.decodeKind := if_neg fun h => h.2 (hkind ▸ h.1)
  have hfits : ∀ v, RescaleFits v 0 (max 0 0) := fun v => .inl rfl
  rw [varReadAlike_numbers hop hl (hkind ▸ hl), compare_storedNumber_of_eq (hzl.trans hzr.symm),
    hscanl, hscanr, hzl, hzr]
  simp only [hfits, and_self, true_and]
  by_cases hnull : (row.isNull left sl.decodeKind || row.isNull right sr.decodeKind) = true
  · rw [if_pos hnull]
    exact ⟨fun h _ => h, fun h => h hnull⟩
  · rw [if_neg hnull]
    exact iff_of_true trivial fun h => absurd h hnull

/-- **The three tests of a column against a column agree where it is read alike.** -/
theorem VarTest.agree_iff {schema : Schema} {t t' : FilterTest InputRequest}
    {td td' : FilterTest FilterInputDesc} (h : VarTest scanTargetScale sl sr name left right t)
    (h' : VarTest (fun _ _ => 0) sl sr name left right t') (hsl : schema left = some sl)
    (hsr : schema right = some sr) (htd : t.lookup (requestDesc schema) = some td)
    (htd' : t'.lookup (requestDesc schema) = some td') :
    Agree ((scanEvaluator scratch row).evalTest td) ((filterEvaluator row).evalTest td)
        ((joinEvaluator row).evalTest td') ↔
      VarReadAlike sl sr scratch row name left right := by
  cases h with
  | @int32 cmpOp hkind hint hop =>
    cases h' with
    | int64 _ hint' _ => rcases hint with h | h | h <;> rcases hint' with h' | h' <;> cases h.symm.trans h'
    | promoted hkind' _ _ _ => exact absurd hkind.symm hkind'
    | @int32 cmpOp' _ _ hop' =>
      obtain rfl := Option.some.inj (hop.symm.trans hop')
      rw [(FilterTest.lookup_two _ _ _).1, lookup_own hsl, lookup_own hsr] at htd htd'
      cases htd
      cases htd'
      have hstored : Agree ((scanEvaluator scratch row).evalTest
            (.int32CmpVar cmpOp (ownDesc left sl) (ownDesc right sr)))
          ((filterEvaluator row).evalTest
            (.int32CmpVar cmpOp (ownDesc left sl) (ownDesc right sr)))
          ((joinEvaluator row).evalTest
            (.int32CmpVar cmpOp (ownDesc left sl) (ownDesc right sr))) ↔
          ((row.isNull left sl.decodeKind || row.isNull right sr.decodeKind) = true →
            cmpOp.holds (compare (row.getInt32 left sl.decodeKind).toInt
              (row.getInt32 right sr.decodeKind).toInt) = false) := by
        exact agree_same_iff
      rw [hstored]
      by_cases hint4 : sl.decodeKind = .int32Int4
      · have hleft : integerValue row left sl.decodeKind = (row.getInt32 left sl.decodeKind).toInt := by
          rw [hint4]
          rfl
        have hright : integerValue row right sr.decodeKind =
            (row.getInt32 right sr.decodeKind).toInt := by
          rw [hkind, hint4]
          rfl
        rw [varReadAlike_same hop hkind (by rw [hint4]; rfl) (by rw [hint4]; decide), hleft, hright]
      · have hfamily : isNumericFamily sl.decodeKind = false := by
          rcases hint with h | h | h
          · rw [h]; rfl
          · exact absurd h hint4
          · rw [h]; rfl
        rw [varReadAlike_others hop hfamily]
  | @int64 cmpOp hkind hint hop =>
    cases h' with
    | int32 _ hint' _ => rcases hint with h | h <;> rcases hint' with h' | h' | h' <;> cases h.symm.trans h'
    | promoted hkind' _ _ _ => exact absurd hkind.symm hkind'
    | @int64 cmpOp' _ _ hop' =>
      obtain rfl := Option.some.inj (hop.symm.trans hop')
      rw [(FilterTest.lookup_two _ _ _).2, lookup_own hsl, lookup_own hsr] at htd htd'
      cases htd
      cases htd'
      by_cases hnum : sl.decodeKind = .int64NumericScaled
      · have hnumr := hkind.trans hnum
        have hdl : promotedDesc left sl 0 = ownDesc left sl := promotedDesc_eq_ownDesc hnum
        have hdr : promotedDesc right sr 0 = ownDesc right sr := promotedDesc_eq_ownDesc hnumr
        have hl : isNumericFamily sl.decodeKind = true := by rw [hnum]; rfl
        have hr : isNumericFamily sr.decodeKind = true := by rw [hnumr]; rfl
        have hscanl : (scanInt64 scratch row (ownDesc left sl)).toInt =
            scannedInteger scratch row left sl sr (scanTargetScale sl sr) := by
          simp [scanInt64, ownDesc, scannedInteger, hnum, integerValue]
        have hscanr : (scanInt64 scratch row (ownDesc right sr)).toInt =
            scannedInteger scratch row right sr sl (scanTargetScale sl sr) := by
          simp [scanInt64, ownDesc, scannedInteger, hnumr, integerValue]
        have hfilterl : (populateInt64 row (ownDesc left sl)).toInt =
            integerValue row left sl.decodeKind := by
          rw [← hdl, populateInt64_numeric hnum, hnum]
          rfl
        have hfilterr : (populateInt64 row (ownDesc right sr)).toInt =
            integerValue row right sr.decodeKind := by
          rw [← hdr, populateInt64_numeric hnumr, hnumr]
          rfl
        obtain ⟨hjoinl, -⟩ := @joinInt64_promoted row sl left hl
        obtain ⟨hjoinr, -⟩ := @joinInt64_promoted row sr right hr
        rw [hdl] at hjoinl
        rw [hdr] at hjoinr
        have hfilter : (filterEvaluator row).evalTest
            (.int64CmpVar cmpOp (ownDesc left sl) (ownDesc right sr)) =
              if row.isNull left sl.decodeKind || row.isNull right sr.decodeKind then .ok false
              else rescaledAnswer (populateInt64 row) cmpOp (ownDesc left sl) (ownDesc right sr) :=
          evalTest_numerics rfl hnum hnumr
        rw [varReadAlike_numbers hop hl hr, scan_int64CmpVar, hscanl, hscanr, hfilter,
          join_numerics hnum hnumr]
        exact agree_numbers_iff (rescaledAnswer_numbers hjoinl rfl hjoinr rfl)
          fun hfits => (rescaledAnswer_numbers hfilterl rfl hfilterr rfl _).2 ⟨hfits, rfl⟩
      · have hint8 : sl.decodeKind = .int64Int8 := hint.resolve_right hnum
        have hint8r := hkind.trans hint8
        have hscanl : scanInt64 scratch row (ownDesc left sl) = (row.int64 left).value := by
          simp [scanInt64, ownDesc, hint8]
        have hscanr : scanInt64 scratch row (ownDesc right sr) = (row.int64 right).value := by
          simp [scanInt64, ownDesc, hint8r]
        have hfilter : (filterEvaluator row).evalTest
            (.int64CmpVar cmpOp (ownDesc left sl) (ownDesc right sr)) =
              .ok (!(row.isNull left sl.decodeKind || row.isNull right sr.decodeKind) &&
                cmpOp.holds (compare (row.int64 left).value.toInt (row.int64 right).value.toInt)) := by
          rw [Evaluator.evalTest]
          cases hnl : row.isNull left sl.decodeKind <;> cases hnr : row.isNull right sr.decodeKind <;>
            rw [hint8] at hnl <;> rw [hint8r] at hnr <;>
            simp [filterEvaluator, ownDesc, hint8, hint8r, populateInt64, hnl, hnr]
        have hjoin : (joinEvaluator row).evalTest
            (.int64CmpVar cmpOp (ownDesc left sl) (ownDesc right sr)) =
              .ok (cmpOp.holds (compare (row.int64 left).value.toInt
                (row.int64 right).value.toInt)) := by
          simp [Evaluator.evalTest, joinEvaluator, joinInt64, ownDesc, hint8, hint8r]
        have hl : integerValue row left sl.decodeKind = (row.int64 left).value.toInt := by
          rw [hint8]
          rfl
        have hr : integerValue row right sr.decodeKind = (row.int64 right).value.toInt := by
          rw [hint8r]
          rfl
        rw [varReadAlike_same hop hkind (by rw [hint8]; rfl) hnum, scan_int64CmpVar, hscanl, hscanr,
          hfilter, hjoin, hl, hr]
        exact agree_same_iff
  | @promoted cmpOp hkind hl hr hop =>
    cases h' with
    | int32 hkind' _ _ => exact absurd hkind'.symm hkind
    | int64 hkind' _ _ => exact absurd hkind'.symm hkind
    | @promoted cmpOp' _ _ _ hop' =>
      obtain rfl := Option.some.inj (hop.symm.trans hop')
      rw [(FilterTest.lookup_two _ _ _).2, lookup_promoted hsl, lookup_promoted hsr] at htd htd'
      cases htd
      cases htd'
      have hmax := scanTargetScale_eq_max sl sr
      -- At most one of the two is a numeric, and then the target scale is its scale.
      have hnuml : sl.decodeKind = .int64NumericScaled →
          inputScale sl = scanTargetScale sl sr := fun h =>
        ((@scanTargetScale_eq sl sr).1 fun h' => hkind (h.trans h'.symm)).symm
      have hnumr : sr.decodeKind = .int64NumericScaled →
          inputScale sr = scanTargetScale sl sr := fun h =>
        ((@scanTargetScale_eq sl sr).2 fun h' => hkind (h'.trans h.symm)).symm
      obtain ⟨hjoinl, hjscalel⟩ := @joinInt64_promoted row sl left hl
      obtain ⟨hjoinr, hjscaler⟩ := @joinInt64_promoted row sr right hr
      have hfilter : (filterEvaluator row).evalTest
          (.int64CmpVar cmpOp (promotedDesc left sl (scanTargetScale sl sr))
            (promotedDesc right sr (scanTargetScale sl sr))) =
            if row.isNull left sl.decodeKind || row.isNull right sr.decodeKind then .ok false
            else rescaledAnswer (populateInt64 row) cmpOp
              (promotedDesc left sl (scanTargetScale sl sr))
              (promotedDesc right sr (scanTargetScale sl sr)) :=
        evalTest_numerics rfl rfl rfl
      have hscanl := @scanInt64_promoted row sl sr left (scanTargetScale sl sr) scratch hl hkind
      have hscanr := @scanInt64_promoted row sr sl right (scanTargetScale sl sr) scratch hr hkind.symm
      rw [varReadAlike_numbers hop hl hr, scan_int64CmpVar, hscanl, hscanr, hfilter,
        join_numerics rfl rfl]
      apply agree_numbers_iff (rescaledAnswer_numbers hjoinl hjscalel hjoinr hjscaler)
      rintro ⟨hfitsl, hfitsr⟩
      rw [← hmax] at hfitsl hfitsr
      have hscale : (promotedDesc left sl (scanTargetScale sl sr)).numericScale =
          (promotedDesc right sr (scanTargetScale sl sr)).numericScale :=
        (promotedDesc_numericScale hnuml).trans (promotedDesc_numericScale hnumr).symm
      rw [rescaledAnswer_of_eq hscale, populateInt64_promoted hl hnuml hfitsl,
        populateInt64_promoted hr hnumr hfitsr, ← compare_storedNumber (hmax ▸ le_max_left _ _)
          (hmax ▸ le_max_right _ _)]

end VarAgree

/-! ## The three readings of a comparison -/

section Readings
variable {T : TypeSupport} {schema : Schema} {scratch : FilterInputDesc → Int64} {row : Row}

/-- The readings of a comparison by a scan, a standalone filter and a join agree. -/
def ReadingsAgree (T : TypeSupport) (schema : Schema) (scratch : FilterInputDesc → Int64)
    (row : Row) (c : Compare) : Prop :=
  Agree ((scanLowering T schema).reading schema (scanEvaluator scratch row) c)
    ((scanLowering T schema).reading schema (filterEvaluator row) c)
    ((joinLowering T schema).reading schema (joinEvaluator row) c)

theorem readingsAgree_iff_tests {c : Compare} {t t' : FilterTest InputRequest}
    {td td' : FilterTest FilterInputDesc} (ht : compareTest T scanTargetScale schema c = some t)
    (htd : t.lookup (requestDesc schema) = some td)
    (ht' : compareTest T (fun _ _ => 0) schema c = some t')
    (htd' : t'.lookup (requestDesc schema) = some td') :
    ReadingsAgree T schema scratch row c ↔
      Agree ((scanEvaluator scratch row).evalTest td) ((filterEvaluator row).evalTest td)
        ((joinEvaluator row).evalTest td') := by
  have hscan : (scanLowering T schema).test c = some t := ht
  have hjoin : (joinLowering T schema).test c = some t' := ht'
  rw [ReadingsAgree, reading_of_test hscan htd, reading_of_test hscan htd, reading_of_test hjoin htd']
  exact agree_negate_iff _

/-- A join tests the comparisons that a scan does. -/
theorem buildVar_zero {name : CompareName} {left right : Nat} {t : FilterTest InputRequest}
    (h : buildVar scanTargetScale schema name left right = some t) :
    ∃ t', buildVar (fun _ _ => 0) schema name left right = some t' := by
  obtain ⟨sl, hsl, h⟩ := Option.bind_eq_some_iff.1 h
  obtain ⟨sr, hsr, h⟩ := Option.bind_eq_some_iff.1 h
  obtain ⟨cmpOp, hop, h⟩ := Option.bind_eq_some_iff.1 h
  simp only [buildVar, hsl, hsr, hop, Option.bind_eq_bind, Option.bind_some]
  by_cases hkind : sl.decodeKind ≠ sr.decodeKind
  · rw [if_pos hkind] at h ⊢
    by_cases hfamily : (isNumericFamily sl.decodeKind && isNumericFamily sr.decodeKind) = true
    · rw [if_pos hfamily]
      exact ⟨_, rfl⟩
    · rw [if_neg hfamily] at h
      cases h
  · rw [if_neg hkind] at h ⊢
    exact ⟨t, h⟩

theorem readAlike_const_iff {name : CompareName} {col : Nat} {text : Bytes} {s : ColumnSchema}
    (flip : Bool) (hs : schema col = some s) :
    ReadAlike T schema scratch row (constCompare flip name col text) ↔
      ConstReadAlike T s row name col text flip := by
  have hforall : (∀ s' text', schema col = some s' → some text = some text' →
      ConstReadAlike T s' row name col text' flip) ↔ ConstReadAlike T s row name col text flip := by
    constructor
    · intro h
      exact h s text hs rfl
    · intro h s' text' hs' htext
      cases hs.symm.trans hs'
      cases htext
      exact h
  cases flip with
  | false => exact hforall
  | true => exact hforall

/-- **The three readings of a lowered comparison agree exactly where it is read alike.** -/
theorem readingsAgree_iff_readAlike {c : Compare}
    (hc : (compareTest T scanTargetScale schema c).isSome) :
    ReadingsAgree T schema scratch row c ↔ ReadAlike T schema scratch row c := by
  obtain ⟨t, ht⟩ := Option.isSome_iff_exists.1 hc
  obtain ⟨td, htd⟩ := compareTest_lookup ht
  obtain ⟨name, l, r⟩ := c
  cases l with
  | column left =>
    cases r with
    | column right =>
      obtain ⟨t', ht'⟩ := buildVar_zero ht
      have hjoin : compareTest T (fun _ _ => 0) schema (varCompare name left right) = some t' := ht'
      obtain ⟨td', htd'⟩ := compareTest_lookup hjoin
      obtain ⟨sl, sr, hsl, hsr, hvar⟩ := buildVar_spec ht
      obtain ⟨sl', sr', hsl', hsr', hvar'⟩ := buildVar_spec ht'
      cases hsl.symm.trans hsl'
      cases hsr.symm.trans hsr'
      rw [readingsAgree_iff_tests ht htd hjoin htd', hvar.agree_iff hvar' hsl hsr htd htd']
      constructor
      · intro h sl' sr' hsl' hsr'
        cases hsl.symm.trans hsl'
        cases hsr.symm.trans hsr'
        exact h
      · intro h
        exact h sl sr hsl hsr
    | constant value =>
      have hjoin : compareTest T (fun _ _ => 0) schema ⟨name, .column left, .constant value⟩ =
        some t := ht
      rw [readingsAgree_iff_tests ht htd hjoin htd]
      obtain ⟨s, text, hs, rfl, hconst⟩ := buildConst_spec ht
      rw [@ConstTest.agree_iff T schema scratch row s name left text false t td hconst hs htd]
      exact (readAlike_const_iff false hs).symm
  | constant value =>
    cases r with
    | column right =>
      have hjoin : compareTest T (fun _ _ => 0) schema ⟨name, .constant value, .column right⟩ =
        some t := ht
      rw [readingsAgree_iff_tests ht htd hjoin htd]
      obtain ⟨t', ht', rfl⟩ := Option.map_eq_some_iff.1 ht
      obtain ⟨s, text, hs, rfl, hconst⟩ := buildConst_spec ht'
      rw [@ConstTest.agree_iff T schema scratch row s name right text true t' td hconst hs htd]
      exact (readAlike_const_iff true hs).symm
    | constant value' => cases ht

/-- A comparison by itself is lowered for a join. -/
theorem registerJoinTest_isSome {t : FilterTest InputRequest} {td : FilterTest FilterInputDesc}
    (h : t.lookup (requestDesc schema) = some td) : (registerJoinTest schema t []).isSome := by
  have hpre : ∃ middle, (match t with
      | .int64CmpVar _ (.promoted left _) (.promoted right _) => do
          let (_, inputs) ← joinInput schema (.own left) []
          let (_, inputs) ← joinInput schema (.own right) inputs
          some inputs
      | _ => some []) = some middle ∧ middle.length ≤ 2 := by
    split
    · next cmpOp left ls right rs =>
      obtain ⟨dl, hdl, h⟩ := Option.bind_eq_some_iff.1 h
      obtain ⟨dr, hdr, -⟩ := Option.bind_eq_some_iff.1 h
      obtain ⟨sl, hsl, -⟩ := Option.bind_eq_some_iff.1 hdl
      obtain ⟨sr, hsr, -⟩ := Option.bind_eq_some_iff.1 hdr
      obtain ⟨i, inputs₁, hi, hlen₁⟩ :=
        @joinInput_isSome schema [] (.own left) _ (lookup_own hsl) (by decide)
      have hlen₁ : inputs₁.length ≤ 1 := hlen₁
      obtain ⟨j, inputs₂, hj, hlen₂⟩ :=
        @joinInput_isSome schema inputs₁ (.own right) _ (lookup_own hsr)
          (lt_of_le_of_lt hlen₁ (by decide))
      refine ⟨inputs₂, ?_, by omega⟩
      simp [hi, hj]
    · exact ⟨[], rfl, Nat.zero_le 2⟩
  obtain ⟨middle, hmiddle, hlen⟩ := hpre
  have hrun : registerJoinTest schema t [] = t.register (joinInput schema) middle :=
    congrArg (fun first => first.bind fun inputs => t.register (joinInput schema) inputs) hmiddle
  rw [hrun]
  exact register_isSome joinInput_isSome h (lt_of_le_of_lt (Nat.succ_le_succ hlen) (by decide))

/-! ## The three evaluators agree -/

/-- **The three evaluators accept the row or reject it alike**, if all of them can be given
the predicate. -/
def EvaluatedAlike (T : TypeSupport) (schema : Schema) (scratch : FilterInputDesc → Int64)
    (row : Row) (filters : List Expr) : Prop :=
  ∀ prog joinProg, lowerScanFilters T schema filters = some prog →
    lowerJoinFilters T schema filters = some joinProg →
      Agree ((scanEvaluator scratch row).executeScan prog) ((filterEvaluator row).execute prog)
        (executeJoin schema row joinProg)

/-- The evaluators run their programs over the readings of the comparisons. -/
theorem evaluatedAlike_iff {filters : List Expr} (hscan : (lowerScanFilters T schema filters).isSome)
    (hjoin : (lowerJoinFilters T schema filters).isSome) :
    EvaluatedAlike T schema scratch row filters ↔
      filterRegisters filters ≤ filterMaxBoolRegs ∧
        Agree (twoValuedFilters ((scanLowering T schema).reading schema (scanEvaluator scratch row))
            filters)
          (twoValuedFilters ((scanLowering T schema).reading schema (filterEvaluator row)) filters)
          (twoValuedFilters ((joinLowering T schema).reading schema (joinEvaluator row)) filters) := by
  obtain ⟨prog, hprog⟩ := Option.isSome_iff_exists.1 hscan
  obtain ⟨joinProg, hjoinProg⟩ := Option.isSome_iff_exists.1 hjoin
  have hruns := Lowering.executeScan_eq (scanLowering_sound T schema) (scanEvaluator scratch row) hprog
  have hrunf := Lowering.execute_eq (scanLowering_sound T schema) (filterEvaluator row) hprog
  have hrunj := Lowering.executeJoin_eq (joinLowering_sound T schema) row hjoinProg
  have hone : EvaluatedAlike T schema scratch row filters ↔
      Agree ((scanEvaluator scratch row).executeScan prog) ((filterEvaluator row).execute prog)
        (executeJoin schema row joinProg) := by
    constructor
    · intro h
      exact h prog joinProg hprog hjoinProg
    · intro h prog' joinProg' hprog' hjoinProg'
      cases hprog.symm.trans hprog'
      cases hjoinProg.symm.trans hjoinProg'
      exact h
  rw [hone, hruns, hrunf, hrunj]
  by_cases hfits : filterRegisters filters ≤ filterMaxBoolRegs
  · rw [if_pos hfits, if_pos hfits, if_pos hfits]
    exact ⟨fun h => ⟨hfits, h⟩, fun h => h.2⟩
  · rw [if_neg hfits, if_neg hfits, if_neg hfits]
    refine iff_of_false ?_ fun h => hfits h.1
    rintro ⟨b, h, -, -⟩
    cases h

/-- Predicates over comparisons whose readings agree are evaluated alike. -/
theorem twoValuedFilters_agree {filters : List Expr}
    (h : ∀ filter ∈ filters, filter.TestsIn (fun _ c => ReadingsAgree T schema scratch row c) true) :
    Agree (twoValuedFilters ((scanLowering T schema).reading schema (scanEvaluator scratch row))
        filters)
      (twoValuedFilters ((scanLowering T schema).reading schema (filterEvaluator row)) filters)
      (twoValuedFilters ((joinLowering T schema).reading schema (joinEvaluator row)) filters) := by
  -- The join's answers, as truth values that are never unknown.
  let test : Compare → Truth := fun c =>
    match (joinLowering T schema).reading schema (joinEvaluator row) c with
    | .ok b => .ofBool b
    | .error _ => .unknown
  have hreads : ∀ (pos : Bool) (c : Compare), ReadingsAgree T schema scratch row c →
      ReadsAs ((scanLowering T schema).reading schema (scanEvaluator scratch row)) test pos c ∧
        ReadsAs ((scanLowering T schema).reading schema (filterEvaluator row)) test pos c ∧
          ReadsAs ((joinLowering T schema).reading schema (joinEvaluator row)) test pos c := by
    rintro pos c ⟨b, h₁, h₂, h₃⟩
    have htest : test c = .ofBool b := by
      show (match (joinLowering T schema).reading schema (joinEvaluator row) c with
        | .ok b => Truth.ofBool b
        | .error _ => .unknown) = .ofBool b
      rw [h₃]
    refine ⟨?_, ?_, ?_⟩
    · rw [ReadsAs, htest, Truth.holds_ofBool, h₁]
    · rw [ReadsAs, htest, Truth.holds_ofBool, h₂]
    · rw [ReadsAs, htest, Truth.holds_ofBool, h₃]
  refine ⟨(sqlWhere test filters).isTrue, ?_, ?_, ?_⟩
  · apply twoValuedFilters_eq
    exact fun filter hmem => Expr.testsIn_mono (fun pos c hc => (hreads pos c hc).1) filter true
      (h filter hmem)
  · apply twoValuedFilters_eq
    exact fun filter hmem => Expr.testsIn_mono (fun pos c hc => (hreads pos c hc).2.1) filter true
      (h filter hmem)
  · apply twoValuedFilters_eq
    exact fun filter hmem => Expr.testsIn_mono (fun pos c hc => (hreads pos c hc).2.2) filter true
      (h filter hmem)

end Readings

/-- **Scans, standalone filters and joins agree on a row, exactly for the comparisons they
read alike.** Every predicate of a set of comparisons that all of them can be given is
accepted or rejected alike if it needs no more registers than there are, and only then,
if and only if each of the comparisons is read alike on the row. -/
theorem evaluatedAlike_iff_readAlike (T : TypeSupport) (schema : Schema)
    (scratch : FilterInputDesc → Int64) (row : Row) (P : Compare → Prop) :
    (∀ filters, (∀ filter ∈ filters, filter.TestsIn (fun _ c => P c) true) →
      (lowerScanFilters T schema filters).isSome → (lowerJoinFilters T schema filters).isSome →
        (EvaluatedAlike T schema scratch row filters ↔
          filterRegisters filters ≤ filterMaxBoolRegs)) ↔
    ∀ c, P c → (compareTest T scanTargetScale schema c).isSome →
      ReadAlike T schema scratch row c := by
  constructor
  · intro h c hP hc
    rw [← readingsAgree_iff_readAlike hc]
    obtain ⟨t, ht⟩ := Option.isSome_iff_exists.1 hc
    have hscan := (lower_compare_isSome hc).1
    have hjoin : (lowerJoinFilters T schema [.compare c]).isSome := by
      obtain ⟨t', ht'⟩ : ∃ t', compareTest T (fun _ _ => 0) schema c = some t' := by
        obtain ⟨name, l, r⟩ := c
        cases l <;> cases r <;> first | exact buildVar_zero ht | exact ⟨t, ht⟩
      obtain ⟨td, htd⟩ := compareTest_lookup ht'
      exact (@Lowering.filters_single (joinLowering T schema) c t' ht'
        (registerJoinTest_isSome htd)).1
    have htests : ∀ filter ∈ [Expr.compare c], filter.TestsIn (fun _ c => P c) true := by
      intro filter hmem
      rw [List.mem_singleton] at hmem
      subst hmem
      rw [Expr.TestsIn]
      exact hP
    have hfits : filterRegisters [Expr.compare c] ≤ filterMaxBoolRegs := by
      have htwo : (Expr.compare c).registers ≤ 2 := by
        rw [Expr.registers]
        split <;> decide
      have hsum : filterRegisters [Expr.compare c] = (Expr.compare c).registers := by
        simp [filterRegisters]
      rw [hsum]
      exact htwo.trans (by decide)
    have hagree := ((evaluatedAlike_iff hscan hjoin).1 ((h _ htests hscan hjoin).2 hfits)).2
    rw [(twoValuedFilters_single _ c).1, (twoValuedFilters_single _ c).1,
      (twoValuedFilters_single _ c).1] at hagree
    exact hagree
  · intro h filters htests hscan hjoin
    rw [evaluatedAlike_iff hscan hjoin]
    refine ⟨fun halike => halike.1, fun hfits => ⟨hfits, ?_⟩⟩
    obtain ⟨prog, hprog⟩ := Option.isSome_iff_exists.1 hscan
    apply twoValuedFilters_agree
    refine Lowering.filtersFrom_tests ?_ hprog htests
    intro _ c hP hc
    exact (readingsAgree_iff_readAlike hc).2 (h c hP hc)

/-! ## Two numerics of different scales -/

/-- `a numeric(10,1)` on the left, `b numeric(10,2)` on the right. -/
def numericSchema : Schema := fun col =>
  if col = 1 then some ⟨1700, 655365, .int64NumericScaled, .left⟩
  else if col = 2 then some ⟨1700, 655366, .int64NumericScaled, .right⟩ else none

/-- Both columns hold the number one. -/
def onesRow : Row :=
  { nullRow with int64 := fun col => if col = 1 then ⟨10, false⟩ else ⟨100, false⟩ }

/-- `a = b` is false in a scan and true elsewhere. -/
theorem not_evaluatedAlike :
    ¬ ∀ (T : TypeSupport) (schema : Schema) (scratch : FilterInputDesc → Int64) (row : Row)
      (filters : List Expr), EvaluatedAlike T schema scratch row filters := by
  intro h
  have hscan : lowerScanFilters decimalSupport numericSchema
      [.compare ⟨.eq, .column 1, .column 2⟩] =
      some ⟨[⟨1, .int64NumericScaled, .int64NumericScaled, 1⟩,
        ⟨2, .int64NumericScaled, .int64NumericScaled, 2⟩], [⟨0, 1, 0⟩],
        [⟨.test (.int64CmpVar .eq 0 1), 0⟩]⟩ := by decide
  have hjoin : lowerJoinFilters decimalSupport numericSchema
      [.compare ⟨.eq, .column 1, .column 2⟩] =
      some ⟨[⟨1, .int64NumericScaled, .int64NumericScaled, 1⟩,
        ⟨2, .int64NumericScaled, .int64NumericScaled, 2⟩], [⟨0, 1, 0⟩],
        [⟨.test (.int64CmpVar .eq 0 1), 0⟩]⟩ := by decide
  obtain ⟨b, hs, -, hj⟩ := h decimalSupport numericSchema (fun _ => 0) onesRow _ _ _ hscan hjoin
  have hfalse : (scanEvaluator (fun _ => 0) onesRow).executeScan
      ⟨[⟨1, .int64NumericScaled, .int64NumericScaled, 1⟩,
        ⟨2, .int64NumericScaled, .int64NumericScaled, 2⟩], [⟨0, 1, 0⟩],
        [⟨.test (.int64CmpVar .eq 0 1), 0⟩]⟩ = .ok false := by decide
  have htrue : executeJoin numericSchema onesRow
      ⟨[⟨1, .int64NumericScaled, .int64NumericScaled, 1⟩,
        ⟨2, .int64NumericScaled, .int64NumericScaled, 2⟩], [⟨0, 1, 0⟩],
        [⟨.test (.int64CmpVar .eq 0 1), 0⟩]⟩ = .ok true := by decide
  rw [hfalse, Except.ok.injEq] at hs
  rw [htrue, Except.ok.injEq] at hj
  exact Bool.false_ne_true (hs.trans hj.symm)

end FilterProgram
end PgYaap
