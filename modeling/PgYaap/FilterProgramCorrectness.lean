import Mathlib
import PgYaap.FilterProgram

/-! # Filter programs compute their predicates

A lowered program runs as the predicate evaluated with two truth values over its
tests, as long as its registers fit (`execute_eq`). Whether that is the SQL value of
the predicate is a question about the tests alone: a test under an even number of
negations has to be true where SQL says TRUE, and one under an odd number where SQL
does not say FALSE. -/
namespace PgYaap
namespace FilterProgram
open SqlLogic

/-! ## Two-valued evaluation -/

def BoolExprType.combine : BoolExprType → Bool → Bool → Bool
  | .and, a, b => a && b
  | .or, a, b => a || b

mutual

/-- A predicate with two truth values, every child evaluated. -/
def Expr.twoValued (reading : Compare → Except FilterError Bool) : Expr → Except FilterError Bool
  | .compare c => reading c
  | .not child => do
      let b ← child.twoValued reading
      .ok (!b)
  | .bool _ [] => .ok false
  | .bool type (child :: children) => do
      let b ← child.twoValued reading
      twoValuedChildren reading type children b

def twoValuedChildren (reading : Compare → Except FilterError Bool) (type : BoolExprType) :
    List Expr → Bool → Except FilterError Bool
  | [], b => .ok b
  | child :: children, b => do
      let r ← child.twoValued reading
      twoValuedChildren reading type children (type.combine b r)

end

/-- A list of filters: the first one that is false ends it. -/
def twoValuedFilters (reading : Compare → Except FilterError Bool) :
    List Expr → Except FilterError Bool
  | [] => .ok true
  | filter :: filters => do
      let b ← filter.twoValued reading
      if b then twoValuedFilters reading filters else .ok false

mutual

/-- The registers of a predicate: one for each test, connective and negation. -/
def Expr.registers : Expr → Nat
  | .compare c => if c.name = .notLike then 2 else 1
  | .not child => child.registers + 1
  | .bool _ [] => 0
  | .bool _ (child :: children) => child.registers + childRegisters children

def childRegisters : List Expr → Nat
  | [] => 0
  | child :: children => child.registers + 1 + childRegisters children

end

def filterRegisters (filters : List Expr) : Nat := (filters.map Expr.registers).sum

/-! ## Inputs keep their places -/

/-- The description of an input a test asks for. -/
def requestDesc (schema : Schema) : InputRequest → Option FilterInputDesc
  | .own col => do some (ownDesc col (← schema col))
  | .promoted col targetScale => do some (promotedDesc col (← schema col) targetScale)

/-- An input that is not promoted is described as its column is stored. -/
def OwnInputs (schema : Schema) (inputs : List FilterInputDesc) : Prop :=
  ∀ d ∈ inputs, d.decodeKind = d.sourceDecodeKind →
    ∃ s, schema d.attno = some s ∧ d = ownDesc d.attno s

/-- What registering an input does: inputs are only added, and the index names the
description asked for. -/
structure Registered (schema : Schema) (request : InputRequest) (inputs : List FilterInputDesc)
    (i : Nat) (inputs' : List FilterInputDesc) : Prop where
  own : OwnInputs schema inputs'
  extends_ : inputs <+: inputs'
  desc : ∃ d, requestDesc schema request = some d ∧ inputs'[i]? = some d

theorem getElem?_of_prefix {α : Type} {l l' : List α} {i : Nat} {a : α} (h : l <+: l')
    (hi : l[i]? = some a) : l'[i]? = some a := by
  obtain ⟨more, rfl⟩ := h
  rw [List.getElem?_append_left]
  · exact hi
  · exact (List.getElem?_eq_some_iff.1 hi).1

theorem promotedDesc_eq_ownDesc {col targetScale : Nat} {s : ColumnSchema}
    (h : s.decodeKind = .int64NumericScaled) : promotedDesc col s targetScale = ownDesc col s := by
  simp [promotedDesc, ownDesc, h]

section Inputs
variable {schema : Schema} {inputs : List FilterInputDesc}

theorem ownInputs_nil : OwnInputs schema [] := by
  intro d hd
  cases hd

theorem ownInputs_append {d : FilterInputDesc} (h : OwnInputs schema inputs)
    (hd : d.decodeKind = d.sourceDecodeKind →
      ∃ s, schema d.attno = some s ∧ d = ownDesc d.attno s) :
    OwnInputs schema (inputs ++ [d]) := by
  intro d' hd' heq
  rcases List.mem_append.1 hd' with hmem | hmem
  · exact h d' hmem heq
  · rw [List.mem_singleton] at hmem
    subst hmem
    exact hd heq

theorem ownInputs_append_own {col : Nat} {s : ColumnSchema} (h : OwnInputs schema inputs)
    (hs : schema col = some s) : OwnInputs schema (inputs ++ [ownDesc col s]) :=
  ownInputs_append h fun _ => ⟨s, hs, rfl⟩

theorem ownInputs_append_promoted {col targetScale : Nat} {s : ColumnSchema}
    (h : OwnInputs schema inputs) (hs : schema col = some s) :
    OwnInputs schema (inputs ++ [promotedDesc col s targetScale]) :=
  ownInputs_append h fun heq => ⟨s, hs, promotedDesc_eq_ownDesc heq.symm⟩

/-- A search that compares descriptions, with the new one behind the others. -/
theorem registered_of_find {request : InputRequest} {d : FilterInputDesc} {i : Nat}
    {inputs' : List FilterInputDesc} (hown : OwnInputs schema inputs)
    (hd : requestDesc schema request = some d) (happ : OwnInputs schema (inputs ++ [d]))
    (h : (inputs.findIdx? (· == d) = some i ∧ inputs' = inputs) ∨
      (i = inputs.length ∧ inputs' = inputs ++ [d])) :
    Registered schema request inputs i inputs' := by
  rcases h with ⟨hfind, rfl⟩ | ⟨rfl, rfl⟩
  · refine ⟨hown, List.prefix_rfl, d, hd, ?_⟩
    obtain ⟨hlt, heq, -⟩ := List.findIdx?_eq_some_iff_getElem.1 hfind
    rw [List.getElem?_eq_getElem hlt, beq_iff_eq.1 heq]
  · refine ⟨happ, List.prefix_append _ _, d, hd, ?_⟩
    exact List.getElem?_concat_length

theorem scanInput_registered {request : InputRequest} {i : Nat} {inputs' : List FilterInputDesc}
    (h : scanInput schema request inputs = some (i, inputs')) (hown : OwnInputs schema inputs) :
    Registered schema request inputs i inputs' := by
  cases request with
  | own col =>
    obtain ⟨s, hs, h⟩ := Option.bind_eq_some_iff.1 h
    have hd : requestDesc schema (.own col) = some (ownDesc col s) := by
      rw [requestDesc, hs]
      rfl
    unfold lookupOrAddScanFilterInput at h
    split at h
    · next j hfind =>
      cases h
      -- The scale is not compared: an input of that kind has the scale of its column.
      obtain ⟨hlt, hmatch, -⟩ := List.findIdx?_eq_some_iff_getElem.1 hfind
      simp only [Bool.and_eq_true, beq_iff_eq] at hmatch
      obtain ⟨⟨hcol, hkind⟩, hsource⟩ := hmatch
      obtain ⟨s', hs', heq⟩ := hown _ (List.getElem_mem hlt) (hkind.trans hsource.symm)
      rw [hcol, hs, Option.some.injEq] at hs'
      refine ⟨hown, List.prefix_rfl, _, hd, ?_⟩
      rw [List.getElem?_eq_getElem hlt, heq, hcol, hs']
    · split at h
      · cases h
      · cases h
        exact registered_of_find hown hd (ownInputs_append_own hown hs) (.inr ⟨rfl, rfl⟩)
  | promoted col targetScale =>
    obtain ⟨s, hs, h⟩ := Option.bind_eq_some_iff.1 h
    have hd : requestDesc schema (.promoted col targetScale) =
        some (promotedDesc col s targetScale) := by
      rw [requestDesc, hs]
      rfl
    unfold lookupOrAddScanFilterInputAs at h
    split at h
    · cases h
    · split at h
      · next j hfind =>
        cases h
        exact registered_of_find hown hd (ownInputs_append_promoted hown hs) (.inl ⟨hfind, rfl⟩)
      · cases h
        exact registered_of_find hown hd (ownInputs_append_promoted hown hs) (.inr ⟨rfl, rfl⟩)

end Inputs

/-! ## Inputs of a test -/

/-- The answer of a comparison: the test it is lowered to, negated for `!~~`. -/
def Lowering.reading (L : Lowering) (schema : Schema) (E : Evaluator) (c : Compare) :
    Except FilterError Bool :=
  match (L.test c).bind (·.lookup (requestDesc schema)) with
  | none => .ok false
  | some t => do
      let b ← E.evalTest t
      .ok (b ^^ (c.name == .notLike))

/-- What registering the inputs of a test does: the indexed test means the test. -/
structure TestRegistered (schema : Schema) (t : FilterTest InputRequest)
    (inputs : List FilterInputDesc) (t' : FilterTest Nat) (inputs' : List FilterInputDesc) :
    Prop where
  own : OwnInputs schema inputs'
  extends_ : inputs <+: inputs'
  means : ∃ td, t.lookup (requestDesc schema) = some td ∧
    ∀ final, inputs' <+: final → t'.lookup (final[·]?) = some td

section Registered
variable {schema : Schema} {inputs inputs' : List FilterInputDesc}
  {input : InputRequest → List FilterInputDesc → Option (Nat × List FilterInputDesc)}

theorem TestRegistered.of_one {t : FilterTest InputRequest} {t' : FilterTest Nat}
    {request : InputRequest} {i : Nat} (h : Registered schema request inputs i inputs')
    (make : FilterInputDesc → FilterTest FilterInputDesc)
    (ht : t.lookup (requestDesc schema) = (requestDesc schema request).map make)
    (ht' : ∀ final : List FilterInputDesc, t'.lookup (final[·]?) = final[i]?.map make) :
    TestRegistered schema t inputs t' inputs' := by
  obtain ⟨d, hd, hi⟩ := h.desc
  refine ⟨h.own, h.extends_, make d, ?_, ?_⟩
  · rw [ht, hd]
    rfl
  · intro final hfinal
    rw [ht', getElem?_of_prefix hfinal hi]
    rfl

theorem TestRegistered.of_two {t : FilterTest InputRequest} {t' : FilterTest Nat}
    {left right : InputRequest} {l r : Nat} {middle : List FilterInputDesc}
    (hl : Registered schema left inputs l middle) (hr : Registered schema right middle r inputs')
    (make : FilterInputDesc → FilterInputDesc → FilterTest FilterInputDesc)
    (ht : t.lookup (requestDesc schema) = (requestDesc schema left).bind fun dl =>
      (requestDesc schema right).map (make dl))
    (ht' : ∀ final : List FilterInputDesc, t'.lookup (final[·]?) =
      final[l]?.bind fun dl => final[r]?.map (make dl)) :
    TestRegistered schema t inputs t' inputs' := by
  obtain ⟨dl, hdl, hil⟩ := hl.desc
  obtain ⟨dr, hdr, hir⟩ := hr.desc
  refine ⟨hr.own, hl.extends_.trans hr.extends_, make dl dr, ?_, ?_⟩
  · rw [ht, hdl, hdr]
    rfl
  · intro final hfinal
    rw [ht', getElem?_of_prefix (hr.extends_.trans hfinal) hil, getElem?_of_prefix hfinal hir]
    rfl

theorem FilterTest.lookup_one {α β : Type} (f : α → Option β) (a : α) :
    (∀ cmpOp value, (FilterTest.int32CmpConst cmpOp a value).lookup f =
      (f a).map (.int32CmpConst cmpOp · value)) ∧
    (∀ cmpOp value, (FilterTest.int64CmpConst cmpOp a value).lookup f =
      (f a).map (.int64CmpConst cmpOp · value)) ∧
    (∀ op bytes, (FilterTest.stringConst op a bytes).lookup f =
      (f a).map (.stringConst op · bytes)) := by
  cases h : f a <;> simp [FilterTest.lookup, h]

theorem FilterTest.lookup_two {α β : Type} (f : α → Option β) (a b : α) :
    (∀ cmpOp, (FilterTest.int32CmpVar cmpOp a b).lookup f =
      (f a).bind fun l => (f b).map (.int32CmpVar cmpOp l)) ∧
    (∀ cmpOp, (FilterTest.int64CmpVar cmpOp a b).lookup f =
      (f a).bind fun l => (f b).map (.int64CmpVar cmpOp l)) := by
  cases ha : f a <;> cases hb : f b <;> simp [FilterTest.lookup, ha, hb]

theorem FilterTest.register_spec
    (hsound : ∀ {request : InputRequest} {inputs inputs' : List FilterInputDesc} {i : Nat},
      input request inputs = some (i, inputs') → OwnInputs schema inputs →
        Registered schema request inputs i inputs')
    {t : FilterTest InputRequest} {t' : FilterTest Nat}
    (h : t.register input inputs = some (t', inputs')) (hown : OwnInputs schema inputs) :
    TestRegistered schema t inputs t' inputs' := by
  cases t with
  | int32CmpConst cmpOp left value =>
    obtain ⟨⟨l, inputs₁⟩, hl, h⟩ := Option.bind_eq_some_iff.1 h
    cases h
    exact .of_one (hsound hl hown) _ ((lookup_one _ left).1 cmpOp value)
      fun final => (lookup_one _ l).1 cmpOp value
  | int64CmpConst cmpOp left value =>
    obtain ⟨⟨l, inputs₁⟩, hl, h⟩ := Option.bind_eq_some_iff.1 h
    cases h
    exact .of_one (hsound hl hown) _ ((lookup_one _ left).2.1 cmpOp value)
      fun final => (lookup_one _ l).2.1 cmpOp value
  | stringConst op left bytes =>
    obtain ⟨⟨l, inputs₁⟩, hl, h⟩ := Option.bind_eq_some_iff.1 h
    cases h
    exact .of_one (hsound hl hown) _ ((lookup_one _ left).2.2 op bytes)
      fun final => (lookup_one _ l).2.2 op bytes
  | int32CmpVar cmpOp left right =>
    obtain ⟨⟨l, inputs₁⟩, hl, h⟩ := Option.bind_eq_some_iff.1 h
    obtain ⟨⟨r, inputs₂⟩, hr, h⟩ := Option.bind_eq_some_iff.1 h
    cases h
    have hleft := hsound hl hown
    exact .of_two hleft (hsound hr hleft.own) _ ((lookup_two _ left right).1 cmpOp)
      fun final => (lookup_two _ l r).1 cmpOp
  | int64CmpVar cmpOp left right =>
    obtain ⟨⟨l, inputs₁⟩, hl, h⟩ := Option.bind_eq_some_iff.1 h
    obtain ⟨⟨r, inputs₂⟩, hr, h⟩ := Option.bind_eq_some_iff.1 h
    cases h
    have hleft := hsound hl hown
    exact .of_two hleft (hsound hr hleft.own) _ ((lookup_two _ left right).2 cmpOp)
      fun final => (lookup_two _ l r).2 cmpOp

end Registered

/-- What a lowering promises of its inputs. -/
def Lowering.Sound (L : Lowering) (schema : Schema) : Prop :=
  ∀ {t : FilterTest InputRequest} {t' : FilterTest Nat} {inputs inputs' : List FilterInputDesc},
    L.register t inputs = some (t', inputs') → OwnInputs schema inputs →
      TestRegistered schema t inputs t' inputs'

theorem scanLowering_sound (T : TypeSupport) (schema : Schema) :
    (scanLowering T schema).Sound schema := FilterTest.register_spec scanInput_registered

/-! ## Registers keep their values -/

/-- The result of running steps from `regs`: an error, or the value in register `out`
with the registers below `base` as they were. -/
def Computes (result : Except FilterError BoolRegs) (regs : BoolRegs) (base out : Nat) :
    Except FilterError Bool → Prop
  | .error e => result = .error e
  | .ok b => ∃ regs', result = .ok regs' ∧ regs' out = b ∧ ∀ r < base, regs' r = regs r

theorem Evaluator.evalSteps_append (E : Evaluator) (inputs : List FilterInputDesc)
    (first second : List FilterStep) (regs : BoolRegs) :
    E.evalSteps inputs (first ++ second) regs =
      E.evalSteps inputs first regs >>= E.evalSteps inputs second := List.foldlM_append

theorem computes_step {E : Evaluator} {inputs : List FilterInputDesc} {op : FilterStepOp}
    {regs : BoolRegs} {base out : Nat} {value : Except FilterError Bool}
    (hop : E.evalOp inputs regs op = value) (hout : out < filterMaxBoolRegs) (hbase : base ≤ out) :
    Computes (E.evalSteps inputs [⟨op, out⟩] regs) regs base out value := by
  have hrun : E.evalSteps inputs [⟨op, out⟩] regs =
      value >>= fun b => .ok (Function.update regs out b) := by
    show E.evalFilterStep inputs regs ⟨op, out⟩ >>= pure = _
    rw [Evaluator.evalFilterStep, hop, bind_pure]
    cases value with
    | error e => rfl
    | ok b => exact if_pos hout
  rw [hrun]
  cases value with
  | error e => rfl
  | ok b =>
    refine ⟨_, rfl, Function.update_self .., ?_⟩
    intro r hr
    exact Function.update_of_ne (by omega) ..

theorem Computes.bind {first : Except FilterError BoolRegs}
    {second : BoolRegs → Except FilterError BoolRegs} {regs : BoolRegs}
    {base base₀ base₁ out out₁ : Nat} {value : Except FilterError Bool}
    {next : Bool → Except FilterError Bool} (h : Computes first regs base₀ out₁ value)
    (hbase₀ : base ≤ base₀) (hbase₁ : base ≤ base₁)
    (hnext : ∀ b regs₁, regs₁ out₁ = b → (∀ r < base₀, regs₁ r = regs r) →
      Computes (second regs₁) regs₁ base₁ out (next b)) :
    Computes (first >>= second) regs base out (value >>= next) := by
  cases value with
  | error e =>
    have h : first = .error e := h
    rw [h]
    rfl
  | ok b =>
    obtain ⟨regs₁, rfl, hb, hframe⟩ := h
    have hsecond := hnext b regs₁ hb hframe
    show Computes (second regs₁) regs base out (next b)
    cases hn : next b with
    | error e =>
      rw [hn] at hsecond
      exact hsecond
    | ok b' =>
      rw [hn] at hsecond
      obtain ⟨regs', hrun, hb', hframe'⟩ := hsecond
      refine ⟨regs', hrun, hb', ?_⟩
      intro r hr
      rw [hframe' r (by omega), hframe r (by omega)]

/-- **What lowering a piece of a predicate does**: inputs and steps are only added, each
step has a register of its own, the last one has the value, and the steps leave the
registers below `base` alone. -/
structure Lowered (E : Evaluator) (schema : Schema) (s s' : LowerState) (base out registers : Nat)
    (before : BoolRegs → Prop) (value : Except FilterError Bool) : Prop where
  own : OwnInputs schema s'.inputs
  inputs : s.inputs <+: s'.inputs
  next : s'.nextBoolReg = s.nextBoolReg + registers
  out_next : out + 1 = s'.nextBoolReg
  base_le : base ≤ out
  steps : ∃ new, s'.steps = s.steps ++ new ∧ new.length = registers ∧
    (s'.nextBoolReg ≤ filterMaxBoolRegs → ∀ final, s'.inputs <+: final → ∀ regs, before regs →
      Computes (E.evalSteps final new regs) regs base out value)

section Lowered
variable {E : Evaluator} {schema : Schema} {s s₁ s₂ : LowerState}
  {base base₀ base₁ out out₁ n n₁ : Nat} {before : BoolRegs → Prop} {value : Except FilterError Bool}

theorem Lowered.bind {Q : Bool → BoolRegs → Prop} {next : Bool → Except FilterError Bool}
    (h : Lowered E schema s s₁ base₀ out₁ n before value)
    (hnext : ∀ b, Lowered E schema s₁ s₂ base₁ out n₁ (Q b) (next b)) (hbase₀ : base ≤ base₀)
    (hbase₁ : base ≤ base₁)
    (hQ : ∀ b regs regs₁, before regs → (∀ r < base₀, regs₁ r = regs r) → regs₁ out₁ = b →
      Q b regs₁) :
    Lowered E schema s s₂ base out (n + n₁) before (value >>= next) := by
  have hs := hnext true
  obtain ⟨new, hsteps, hlen, hrun⟩ := h.steps
  obtain ⟨new₁, hsteps₁, hlen₁, -⟩ := hs.steps
  refine ⟨hs.own, h.inputs.trans hs.inputs, ?_, hs.out_next, hbase₁.trans hs.base_le,
    new ++ new₁, ?_, ?_, ?_⟩
  · rw [hs.next, h.next, Nat.add_assoc]
  · rw [hsteps₁, hsteps, List.append_assoc]
  · rw [List.length_append, hlen, hlen₁]
  · intro hfits final hfinal regs hregs
    have hfits₁ : s₁.nextBoolReg ≤ filterMaxBoolRegs := by
      have := hs.next
      omega
    rw [E.evalSteps_append]
    refine (hrun hfits₁ final (hs.inputs.trans hfinal) regs hregs).bind hbase₀ hbase₁ ?_
    intro b regs₁ hb hframe
    obtain ⟨new', hsteps', -, hrun'⟩ := (hnext b).steps
    have hnew : new' = new₁ := List.append_cancel_left (hsteps'.symm.trans hsteps₁)
    subst hnew
    exact hrun' hfits final hfinal regs₁ (hQ b regs regs₁ hregs hframe hb)

/-- A step pushed after inputs were added. -/
theorem lowered_push {inputs : List FilterInputDesc} {op : FilterStepOp}
    (hown : OwnInputs schema inputs) (hinputs : s.inputs <+: inputs) (hbase : base ≤ s.nextBoolReg)
    (hop : s.nextBoolReg < filterMaxBoolRegs → ∀ final, inputs <+: final → ∀ regs, before regs →
      E.evalOp final regs op = value) :
    Lowered E schema s (LowerState.push { s with inputs := inputs } op).2 base s.nextBoolReg 1
      before value := by
  refine ⟨hown, hinputs, rfl, rfl, hbase, [⟨op, s.nextBoolReg⟩], rfl, rfl, ?_⟩
  intro hfits final hfinal regs hregs
  exact computes_step (hop hfits final hfinal regs hregs) hfits hbase

/-- The negation of the last register. -/
theorem lowered_boolNot (hown : OwnInputs schema s.inputs) (hout : out + 1 = s.nextBoolReg) (b : Bool) :
    Lowered E schema s (s.push (.boolNot out)).2 out s.nextBoolReg 1 (fun regs => regs out = b)
      (.ok (!b)) := by
  refine lowered_push hown List.prefix_rfl (by omega) ?_
  intro hfits final _ regs hregs
  have hlt : out < filterMaxBoolRegs := by omega
  rw [Evaluator.evalOp, readReg, if_pos hlt, hregs]
  rfl

/-- A connective of two registers. -/
theorem lowered_combine (type : BoolExprType) {left right : Nat} (hown : OwnInputs schema s.inputs)
    (hleft : left < s.nextBoolReg) (hright : right < s.nextBoolReg) (b r : Bool) :
    Lowered E schema s (s.push (type.step left right)).2 left s.nextBoolReg 1
      (fun regs => regs left = b ∧ regs right = r) (.ok (type.combine b r)) := by
  refine lowered_push hown List.prefix_rfl hleft.le ?_
  rintro hfits final - regs ⟨hb, hr⟩
  have hl : left < filterMaxBoolRegs := by omega
  have hr' : right < filterMaxBoolRegs := by omega
  cases type with
  | and =>
    rw [BoolExprType.step, Evaluator.evalOp, readReg, readReg, if_pos hl, if_pos hr', hb, hr]
    rfl
  | or =>
    rw [BoolExprType.step, Evaluator.evalOp, readReg, readReg, if_pos hl, if_pos hr', hb, hr]
    rfl

end Lowered

/-! ## A predicate is lowered as it is evaluated -/

section LowerExpr
variable {L : Lowering} {schema : Schema}

theorem Lowering.compare_lowered (hL : L.Sound schema) (E : Evaluator) {c : Compare}
    {s s' : LowerState} {out : Nat} (h : L.compare c s = some (out, s')) (hown : OwnInputs schema s.inputs)
    (before : BoolRegs → Prop) :
    Lowered E schema s s' s.nextBoolReg out (Expr.compare c).registers before
      (L.reading schema E c) := by
  obtain ⟨test, htest, h⟩ := Option.bind_eq_some_iff.1 h
  obtain ⟨⟨t, inputs⟩, hreg, h⟩ := Option.bind_eq_some_iff.1 h
  have hspec := hL hreg hown
  obtain ⟨td, htd, hmeans⟩ := hspec.means
  have hreading : L.reading schema E c = E.evalTest td >>= fun b => .ok (b ^^ (c.name == .notLike)) := by
    rw [Lowering.reading, htest, Option.bind_some, htd]
  have hpush : Lowered E schema s (LowerState.push ⟨inputs, s.steps, s.nextBoolReg⟩ (.test t)).2
      s.nextBoolReg s.nextBoolReg 1 before (E.evalTest td) := by
    refine lowered_push hspec.own hspec.extends_ le_rfl ?_
    intro _ final hfinal regs _
    rw [Evaluator.evalOp, Evaluator.evalIndexedTest, hmeans final hfinal]
  rw [hreading, Expr.registers]
  have h : LowerState.finishStep ⟨inputs, s.steps, s.nextBoolReg⟩ (c.name == .notLike) (.test t) =
    some (out, s') := h
  rw [LowerState.finishStep] at h
  by_cases hneg : c.name = .notLike
  · rw [hneg, BEq.rfl, if_pos rfl] at h
    by_cases hfull : filterMaxBoolRegs ≤
        (LowerState.push ⟨inputs, s.steps, s.nextBoolReg⟩ (.test t)).2.nextBoolReg
    · rw [if_pos hfull] at h
      cases h
    · rw [if_neg hfull] at h
      cases h
      simp only [hneg, if_pos, BEq.rfl, Bool.xor_true]
      refine hpush.bind (fun b => lowered_boolNot hpush.own rfl b) le_rfl le_rfl ?_
      intro b regs regs₁ _ _ hb
      exact hb
  · have hfalse : (c.name == .notLike) = false := beq_false_of_ne hneg
    rw [hfalse, if_neg Bool.false_ne_true] at h
    cases h
    simp only [hfalse, if_neg hneg, Bool.xor_false]
    have hpure : (E.evalTest td >>= fun b => .ok b) = E.evalTest td := bind_pure _
    rw [hpure]
    exact hpush

mutual

theorem Lowering.boolExpr_lowered (hL : L.Sound schema) (E : Evaluator) : ∀ (e : Expr) {s s' : LowerState} {out : Nat},
    L.boolExpr e s = some (out, s') → OwnInputs schema s.inputs → ∀ before,
      Lowered E schema s s' s.nextBoolReg out e.registers before
        (e.twoValued (L.reading schema E))
  | .compare c, s, s', out, h, hown, before => by
    rw [Lowering.boolExpr] at h
    rw [Expr.twoValued]
    exact Lowering.compare_lowered hL E h hown before
  | .not child, s, s', out, h, hown, before => by
    rw [Lowering.boolExpr] at h
    split at h
    · cases h
    · obtain ⟨⟨out₁, s₁⟩, hchild, h⟩ := Option.bind_eq_some_iff.1 h
      cases h
      have ih := Lowering.boolExpr_lowered hL E child hchild hown before
      rw [Expr.twoValued, Expr.registers]
      refine ih.bind (fun b => lowered_boolNot ih.own ih.out_next b) le_rfl ih.base_le ?_
      intro b regs regs₁ _ _ hb
      exact hb
  | .bool _ [], s, s', out, h, _, _ => by
    rw [Lowering.boolExpr] at h
    cases h
  | .bool type (child :: children), s, s', out, h, hown, before => by
    rw [Lowering.boolExpr] at h
    obtain ⟨⟨left, s₁⟩, hchild, h⟩ := Option.bind_eq_some_iff.1 h
    have ih := Lowering.boolExpr_lowered hL E child hchild hown before
    rw [Expr.twoValued, Expr.registers]
    refine ih.bind (fun b => Lowering.boolChildren_lowered hL E children type h ih.own ih.out_next b)
      le_rfl ih.base_le ?_
    intro b regs regs₁ _ _ hb
    exact hb

theorem Lowering.boolChildren_lowered (hL : L.Sound schema) (E : Evaluator) :
    ∀ (children : List Expr) (type : BoolExprType) {left out : Nat} {s s' : LowerState},
    L.boolChildren type children left s = some (out, s') → OwnInputs schema s.inputs →
      left + 1 = s.nextBoolReg → ∀ b,
      Lowered E schema s s' left out (childRegisters children) (fun regs => regs left = b)
        (twoValuedChildren (L.reading schema E) type children b)
  | [], type, left, out, s, s', h, hown, hleft, b => by
    rw [Lowering.boolChildren] at h
    cases h
    rw [twoValuedChildren]
    refine ⟨hown, List.prefix_rfl, rfl, hleft, le_rfl, [], (List.append_nil _).symm, rfl, ?_⟩
    intro _ final _ regs hregs
    exact ⟨regs, rfl, hregs, fun r _ => rfl⟩
  | child :: children, type, left, out, s, s', h, hown, hleft, b => by
    rw [Lowering.boolChildren] at h
    split at h
    · cases h
    · obtain ⟨⟨right, s₁⟩, hchild, h⟩ := Option.bind_eq_some_iff.1 h
      have ih := Lowering.boolExpr_lowered hL E child hchild hown (fun regs => regs left = b)
      have hlt : left < s₁.nextBoolReg := by
        have := ih.next
        omega
      have hrt : right < s₁.nextBoolReg := by
        have := ih.out_next
        omega
      have hcombine := lowered_combine (E := E) type ih.own hlt hrt b
      have hrest : ∀ r, Lowered E schema s₁ s' left out (1 + childRegisters children)
          (fun regs => regs left = b ∧ regs right = r)
          (twoValuedChildren (L.reading schema E) type children (type.combine b r)) :=
        fun r => (hcombine r).bind
          (Lowering.boolChildren_lowered hL E children type h (hcombine r).own rfl) le_rfl hlt.le
          (fun _ _ _ _ _ hb' => hb')
      rw [twoValuedChildren, childRegisters, Nat.add_assoc]
      -- The left register is below the child's registers, so it keeps its value.
      refine ih.bind hrest (by omega) le_rfl ?_
      intro r regs regs₁ hb hframe hr
      exact ⟨(hframe left (by omega)).trans hb, hr⟩

end

end LowerExpr

/-! ## A program runs as its filters are evaluated -/

/-- What lowering a list of filters adds to a program, from a state with as many steps as
registers. -/
structure FiltersLowered (L : Lowering) (schema : Schema) (E : Evaluator) (filters : List Expr)
    (s : LowerState) (exprs : List FilterExprDesc) (prog : Program) : Prop where
  inputs : s.inputs <+: prog.inputs
  steps : s.steps <+: prog.steps
  length : prog.steps.length = s.nextBoolReg + filterRegisters filters
  exprs : ∃ new, prog.exprs = exprs ++ new ∧ new.length = filters.length ∧
    new.foldl (fun maxReg expr => max maxReg (expr.outputBoolReg + 1)) s.nextBoolReg =
      s.nextBoolReg + filterRegisters filters ∧
    (prog.steps.length ≤ filterMaxBoolRegs → ∀ boolRegs, prog.steps.length ≤ boolRegs → ∀ regs,
      E.evalExprs prog boolRegs new regs = twoValuedFilters (L.reading schema E) filters)

theorem Lowered.length_steps {E : Evaluator} {schema : Schema} {s s' : LowerState}
    {base out n : Nat} {before : BoolRegs → Prop} {value : Except FilterError Bool}
    (h : Lowered E schema s s' base out n before value) :
    s'.steps.length = s.steps.length + n := by
  obtain ⟨new, hsteps, hlen, -⟩ := h.steps
  rw [hsteps, List.length_append, hlen]

/-- The steps of one expression, and whether it ends the row. -/
theorem Lowered.evalExprs_cons {E : Evaluator} {schema : Schema} {s s' : LowerState}
    {base out n : Nat} {value : Except FilterError Bool}
    (h : Lowered E schema s s' base out n (fun _ => True) value) {prog : Program}
    (hinputs : s'.inputs <+: prog.inputs) (hsteps : s'.steps <+: prog.steps) {boolRegs : Nat}
    (hfits : s'.nextBoolReg ≤ filterMaxBoolRegs) (hregs : out < boolRegs)
    (exprs : List FilterExprDesc) (rest : Except FilterError Bool)
    (hrest : ∀ regs, E.evalExprs prog boolRegs exprs regs = rest) (regs : BoolRegs) :
    E.evalExprs prog boolRegs
        (⟨s.steps.length, s'.steps.length - s.steps.length, out⟩ :: exprs) regs =
      value >>= fun b => if b then rest else .ok false := by
  have hlen := h.length_steps
  obtain ⟨new, hnew, hlenNew, hrun⟩ := h.steps
  obtain ⟨more, hmore⟩ := hsteps
  have htake : (prog.steps.drop s.steps.length).take (s'.steps.length - s.steps.length) = new := by
    rw [← hmore, hnew, List.append_assoc, List.drop_left, List.length_append,
      Nat.add_sub_cancel_left, List.take_left]
  have hbound : ¬ prog.steps.length < s.steps.length + (s'.steps.length - s.steps.length) := by
    rw [← hmore, List.length_append]
    omega
  rw [Evaluator.evalExprs, if_neg hbound, htake]
  have hcomp := hrun hfits prog.inputs hinputs regs trivial
  cases value with
  | error e =>
    have hcomp : E.evalSteps prog.inputs new regs = .error e := hcomp
    rw [hcomp]
    rfl
  | ok b =>
    obtain ⟨regs', hres, hb, -⟩ := hcomp
    rw [hres]
    show (if boolRegs ≤ out ∨ regs' out = false then _ else E.evalExprs prog boolRegs exprs regs') =
      if b then rest else .ok false
    rw [hb, hrest regs']
    cases b with
    | false => rw [if_pos (.inr rfl), if_neg Bool.false_ne_true]
    | true => rw [if_neg (by simp [hregs]), if_pos rfl]

theorem Lowering.filtersFrom_lowered {L : Lowering} {schema : Schema} (hL : L.Sound schema)
    (E : Evaluator) {filters : List Expr} {s : LowerState} {exprs : List FilterExprDesc}
    {prog : Program} (h : L.filtersFrom filters s exprs = some prog)
    (hown : OwnInputs schema s.inputs) (hlen : s.steps.length = s.nextBoolReg) :
    FiltersLowered L schema E filters s exprs prog := by
  induction filters generalizing s exprs with
  | nil =>
    cases h
    refine ⟨List.prefix_rfl, List.prefix_rfl, hlen, [], (List.append_nil _).symm, rfl, rfl, ?_⟩
    intro _ boolRegs _ regs
    rfl
  | cons filter filters ih =>
    obtain ⟨⟨out, s'⟩, hexpr, h⟩ := Option.bind_eq_some_iff.1 h
    obtain ⟨exprs', happ, h⟩ := Option.bind_eq_some_iff.1 h
    have hlow := Lowering.boolExpr_lowered hL E filter hexpr hown (fun _ => True)
    have hlen' : s'.steps.length = s'.nextBoolReg := by
      rw [hlow.length_steps, hlow.next, hlen]
    obtain ⟨hinputs, hsteps, hlength, new, hnew, hnewLen, hmax, heval⟩ := ih h hlow.own hlen'
    have hregs : filterRegisters (filter :: filters) = filter.registers + filterRegisters filters :=
      List.sum_cons
    have hout := hlow.out_next
    have hnext := hlow.next
    rw [appendFilterExpr] at happ
    split at happ
    · cases happ
    · cases happ
      refine ⟨hlow.inputs.trans hinputs, ?_, ?_,
        ⟨s.steps.length, s'.steps.length - s.steps.length, out⟩ :: new, ?_, ?_, ?_, ?_⟩
      · obtain ⟨added, hadded, -⟩ := hlow.steps
        exact (hadded ▸ List.prefix_append _ _ : s.steps <+: s'.steps).trans hsteps
      · rw [hlength, hnext, hregs, Nat.add_assoc]
      · rw [hnew, List.append_assoc, List.singleton_append]
      · rw [List.length_cons, hnewLen, List.length_cons]
      · rw [List.foldl_cons, hout, Nat.max_eq_right (by omega), hmax, hnext, hregs, Nat.add_assoc]
      · intro hfits boolRegs hbool regs
        exact hlow.evalExprs_cons hinputs hsteps (by omega) (by omega) new _
          (heval hfits boolRegs hbool) regs

section Execute
variable {L : Lowering} {schema : Schema} {filters : List Expr} {prog : Program}

theorem Lowering.filters_lowered (hL : L.Sound schema) (E : Evaluator)
    (h : L.filters filters = some prog) :
    FiltersLowered L schema E filters ⟨[], [], 0⟩ [] prog :=
  Lowering.filtersFrom_lowered hL E h ownInputs_nil rfl

theorem FiltersLowered.evalGeneral_eq {E : Evaluator}
    (h : FiltersLowered L schema E filters ⟨[], [], 0⟩ [] prog) {boolRegs : Nat}
    (hbool : filterRegisters filters ≤ filterMaxBoolRegs → filterRegisters filters ≤ boolRegs) :
    E.evalGeneral prog boolRegs =
      if filterRegisters filters ≤ filterMaxBoolRegs then
        twoValuedFilters (L.reading schema E) filters
      else .error .outOfBounds := by
  obtain ⟨new, hnew, -, hmax, heval⟩ := h.exprs
  have hlen : prog.steps.length = filterRegisters filters := by
    rw [h.length, Nat.zero_add]
  have hreq : requiredFilterBoolRegs prog.exprs = filterRegisters filters := by
    rw [requiredFilterBoolRegs, hnew, List.nil_append, hmax, Nat.zero_add]
  rw [Evaluator.evalGeneral, hreq]
  by_cases hfits : filterRegisters filters ≤ filterMaxBoolRegs
  · rw [if_pos hfits, if_neg (by omega), hnew, List.nil_append]
    exact heval (by omega) boolRegs (by rw [hlen]; exact hbool hfits) _
  · rw [if_neg hfits, if_pos (by omega)]

/-- A single test is a program of one step. -/
theorem simpleFilterStep_registers (hL : L.Sound schema) (E : Evaluator)
    (h : L.filters filters = some prog) {t : FilterTest Nat} (ht : simpleFilterStep prog = some t) :
    filterRegisters filters = 1 ∧ prog.exprs = [⟨0, 1, 0⟩] ∧ prog.steps = [⟨.test t, 0⟩] := by
  have hlow := Lowering.filters_lowered hL E h
  obtain ⟨new, hnew, hnewLen, -⟩ := hlow.exprs
  have hlen := hlow.length
  unfold simpleFilterStep at ht
  split at ht
  · next expr hexprs =>
    rw [hexprs, List.nil_append] at hnew
    subst hnew
    obtain ⟨filter, rfl⟩ := List.length_eq_one_iff.1 hnewLen.symm
    obtain ⟨⟨out, s'⟩, hexpr, h⟩ := Option.bind_eq_some_iff.1 h
    obtain ⟨exprs', happ, h⟩ := Option.bind_eq_some_iff.1 h
    have hfilter := Lowering.boolExpr_lowered hL E filter hexpr ownInputs_nil (fun _ => True)
    have hsteps := hfilter.length_steps
    have hout := hfilter.out_next
    have hnext := hfilter.next
    cases h
    rw [appendFilterExpr] at happ
    split at happ
    · cases happ
    · rw [Option.some.injEq, List.nil_append] at happ
      rw [← happ, List.singleton_inj] at hexprs
      subst hexprs
      simp only [List.length_nil, Nat.zero_add, Nat.sub_zero] at hsteps hnext ht
      split at ht
      · next hone =>
        rw [hone] at hsteps
        have hzero : out = 0 := by omega
        obtain ⟨step, hstep⟩ := List.length_eq_one_iff.1 hone
        subst hzero
        rw [hstep] at ht
        obtain ⟨op, reg⟩ := step
        simp only [List.getElem?_cons_zero] at ht
        cases op with
        | test t' =>
          simp only at ht
          split at ht
          · next hreg =>
            cases ht
            subst hreg
            refine ⟨?_, ?_, hstep⟩
            · have := hlow.length
              simp only [hstep, List.length_singleton, Nat.zero_add] at this
              exact this.symm
            · rw [← happ, hone]
              rfl
          · cases ht
        | boolAnd left right => cases ht
        | boolOr left right => cases ht
        | boolNot left => cases ht
      · cases ht
  · cases ht

/-- A single test runs through the registers as it runs without them. -/
theorem evalGeneral_simple (hL : L.Sound schema) (E : Evaluator) (h : L.filters filters = some prog)
    {t : FilterTest Nat} (ht : simpleFilterStep prog = some t) {boolRegs : Nat}
    (hregs : 0 < boolRegs) : E.evalGeneral prog boolRegs = E.evalIndexedTest prog.inputs t := by
  obtain ⟨-, hexpr, hsteps⟩ := simpleFilterStep_registers hL E h ht
  rw [Evaluator.evalGeneral, hexpr]
  show E.evalExprs prog boolRegs [⟨0, 1, 0⟩] (fun _ => false) = _
  rw [Evaluator.evalExprs, hsteps]
  have hcomp : Computes (E.evalSteps prog.inputs [⟨.test t, 0⟩] (fun _ => false))
      (fun _ => false) 0 0 (E.evalOp prog.inputs (fun _ => false) (.test t)) :=
    computes_step rfl (by decide) le_rfl
  show (E.evalSteps prog.inputs [⟨.test t, 0⟩] _ >>= _) = E.evalOp _ (fun _ => false) (.test t)
  cases hvalue : E.evalOp prog.inputs (fun _ => false) (.test t) with
  | error e =>
    rw [hvalue] at hcomp
    have hcomp : E.evalSteps prog.inputs [⟨.test t, 0⟩] (fun _ => false) = .error e := hcomp
    rw [hcomp]
    rfl
  | ok b =>
    rw [hvalue] at hcomp
    obtain ⟨regs', hres, hb, -⟩ := hcomp
    rw [hres]
    show (if boolRegs ≤ 0 ∨ regs' 0 = false then _ else Except.ok true) = Except.ok b
    rw [hb]
    have hne : ¬ boolRegs ≤ 0 := not_le.2 hregs
    cases b <;> simp [hne]

theorem filters_eq_nil (hL : L.Sound schema) (E : Evaluator) (h : L.filters filters = some prog)
    (hexprs : prog.exprs = []) : filters = [] := by
  obtain ⟨new, hnew, hnewLen, -⟩ := (Lowering.filters_lowered hL E h).exprs
  rw [hexprs, List.nil_append] at hnew
  rw [← hnew, List.length_nil] at hnewLen
  exact List.length_eq_zero_iff.1 hnewLen.symm

/-- **A lowered program computes its filters**, as long as there are registers for all of
them. -/
theorem Lowering.execute_eq (hL : L.Sound schema) (E : Evaluator)
    (h : L.filters filters = some prog) :
    E.execute prog =
      if filterRegisters filters ≤ filterMaxBoolRegs then
        twoValuedFilters (L.reading schema E) filters
      else .error .outOfBounds := by
  have hlow := Lowering.filters_lowered hL E h
  have hgeneral := @FiltersLowered.evalGeneral_eq L schema filters prog E hlow filterMaxBoolRegs id
  rw [Evaluator.execute]
  by_cases hexprs : prog.exprs = []
  · obtain rfl : filters = [] := filters_eq_nil hL E h hexprs
    rw [if_pos hexprs]
    rfl
  · rw [if_neg hexprs]
    cases ht : simpleFilterStep prog with
    | none => exact hgeneral
    | some t =>
      rw [← hgeneral]
      exact (evalGeneral_simple hL E h ht (by decide)).symm

end Execute

end FilterProgram
end PgYaap
