import PgYaap.StoredNumeric

/-! # Arithmetic in projections

An arithmetic expression over columns and constants is lowered to steps over slots of
`int64`, each result into a slot of its own, with a scale that stands in the descriptor and
not in the slot. The steps are executed here on one row. What a lowered expression leaves in
its slot is a function of the expression and the row (`execute_lower`). -/
namespace PgYaap
namespace ProjectionSteps

open StoredNumeric

/-! ## Steps -/

/-- `ProjectOp`, the operations of `int64`. -/
inductive ProjectOp
  | numericScaleVarConst
  | numericMulVarVar
  | numericMulVarConst
  | numericSubConstVar
  | numericAddConstVar
  | numericAddVarVar
  | numericSubVarVar
  | numericAddVarConst
  | numericSubVarConst
  | copyVar
  | numericDivVarVar
  | constInt64
  deriving DecidableEq, Repr

/-- `ProjectStep`. -/
structure ProjectStep where
  op : ProjectOp
  inA : Nat
  inB : Nat
  out : Nat
  constValue : Int64

/-- The slots of a row; `none` where the NULL flag is set. -/
abbrev Slots := Nat → Option Int64

/-- A result of two operands, NULL where one of them is. -/
def lift₂ (f : Int64 → Int64 → Int64) (a b : Option Int64) : Option Int64 :=
  a.bind fun a => b.map fun b => f a b

/-- The division, in 128 bits: NULL for a zero, an error where the quotient is out of range. -/
def divide (factor a b : Int64) : Except String (Option Int64) :=
  if b.toInt = 0 then .ok none
  else
    let quotient := (wide (a.toInt * factor.toInt)).tdiv b.toInt
    if FitsInt64 quotient then .ok (some (Int64.ofInt quotient))
    else .error "pg_yaap projection numeric division exceeds int64 range"

/-- The operands of a division, of which one may be NULL. -/
def divide? (factor : Int64) : Option Int64 → Option Int64 → Except String (Option Int64)
  | some a, some b => divide factor a b
  | _, _ => .ok none

/-- What a step writes. -/
def stepResult (step : ProjectStep) (row : Slots) : Except String (Option Int64) :=
  let a := row step.inA
  let b := row step.inB
  let c := step.constValue
  match step.op with
  | .numericScaleVarConst => .ok (a.map fun a => if 0 ≤ c then a * c else a / -c)
  | .numericMulVarVar => .ok (lift₂ (· * ·) a b)
  | .numericAddVarVar => .ok (lift₂ (· + ·) a b)
  | .numericSubVarVar => .ok (lift₂ (· - ·) a b)
  | .numericMulVarConst => .ok (a.map (· * c))
  | .numericAddVarConst => .ok (a.map (· + c))
  | .numericSubVarConst => .ok (a.map (· - c))
  | .copyVar => .ok a
  | .numericSubConstVar => .ok (b.map (c - ·))
  | .numericAddConstVar => .ok (b.map (c + ·))
  | .numericDivVarVar => divide? c a b
  | .constInt64 => .ok (some c)

/-- `ExecuteStep` on one row. -/
def executeStep (row : Slots) (step : ProjectStep) : Except String Slots :=
  (stepResult step row).map fun v => Function.update row step.out v

/-- The loop of `PhysicalProjection::Execute` over the steps. -/
def execute (steps : List ProjectStep) (row : Slots) : Except String Slots :=
  steps.foldlM executeStep row

/-! ## Lowering -/

inductive ArithOp
  | add
  | sub
  | mul
  | div
  deriving DecidableEq, Repr

/-- Arithmetic expressions. A column, and whatever else has been put into a slot before, has a
scale; a constant has the integer that its text stands for at its own scale. Both are of an
integer type or numeric. -/
inductive Expr
  | slot (slot : Nat) (scale : Int) (integral : Bool)
  | const (scale : Int) (value : Int64) (integral : Bool)
  | binary (op : ArithOp) (lhs rhs : Expr)

/-- The steps so far and `next_int64_slot`. -/
structure LowerState where
  steps : List ProjectStep
  nextInt64Slot : Nat

/-- A step that writes the next slot. -/
def LowerState.push (s : LowerState) (op : ProjectOp) (inA inB : Nat) (c : Int64) : LowerState :=
  ⟨s.steps ++ [⟨op, inA, inB, s.nextInt64Slot, c⟩], s.nextInt64Slot + 1⟩

/-- `Pow10Int64`. -/
def pow10Int64 (exp : Int) : Option Int64 :=
  if exp < 0 ∨ 18 < exp then none else some (Int64.ofInt (10 ^ exp.toNat))

/-- `AppendScaleProjectStep`. -/
def appendScaleProjectStep (inputSlot : Nat) (inputScale targetScale : Int) (s : LowerState) :
    Option (Nat × LowerState) :=
  if inputScale = targetScale then some (inputSlot, s)
  else
    let delta := targetScale - inputScale
    (pow10Int64 delta.natAbs).bind fun factor =>
      if 16 ≤ s.nextInt64Slot then none
      else some (s.nextInt64Slot,
        s.push .numericScaleVarConst inputSlot 0 (if 0 ≤ delta then factor else -factor))

/-- `RescaleInt64Constant`. -/
def rescaleInt64Constant (value : Int64) (fromScale toScale : Int) : Option Int64 :=
  if toScale < 0 ∨ fromScale < 0 then none
  else if toScale < fromScale then (pow10Int64 (fromScale - toScale)).map (value / ·)
  else (pow10Int64 (toScale - fromScale)).map (value * ·)

/-- The step that is written last, if there is a slot for it. -/
def pushChecked (s : LowerState) (op : ProjectOp) (inA inB : Nat) (c : Int64) (outScale : Int) :
    Option (Int × Nat × LowerState) :=
  if 16 ≤ s.nextInt64Slot then none
  else some (outScale, s.nextInt64Slot, s.push op inA inB c)

/-- A scale, kept in eight bits. -/
def scale8 (scale : Int) : Int := scale.bmod (2 ^ 8)

/-- `kProjectionDivisionScale` and `kProjectionConstDivisionScale`. -/
def divisionScale (hasConst : Bool) (lhsScale rhsScale : Int) : Int :=
  if hasConst then max 6 (max lhsScale rhsScale) else 16

/-- The constant an expression is. -/
def Expr.asConst : Expr → Option (Int × Int64)
  | .const scale value _ => some (scale, value)
  | _ => none

/-- `LowerOptimizerExpr`, with `LowerProjectionConstant` and `LowerNumericBinaryExpr`: the
scale, the slot and the steps. Where a constant stands before the operator of a sum, the
operand behind it is not aligned. -/
def lower : Expr → LowerState → Option (Int × Nat × LowerState)
  | .slot k scale _, s => some (scale, k, s)
  | .const scale value _, s => pushChecked s .constInt64 0 0 value scale
  | .binary op lhs rhs, s =>
    match op, lhs.asConst, rhs.asConst with
    | .div, lhsConst, rhsConst =>
      if 16 ≤ s.nextInt64Slot then none
      else
        (lower lhs s).bind fun (lhsScale, lhsSlot, s) =>
        (lower rhs s).bind fun (rhsScale, rhsSlot, s) =>
        let outScale := divisionScale (lhsConst.isSome || rhsConst.isSome) lhsScale rhsScale
        (pow10Int64 (outScale + rhsScale - lhsScale)).map fun factor =>
          (outScale, s.nextInt64Slot, s.push .numericDivVarVar lhsSlot rhsSlot factor)
    | .mul, some _, some _ => none
    | .mul, some (constScale, constValue), none =>
      (lower rhs s).bind fun (varScale, varSlot, s) =>
        pushChecked s .numericMulVarConst varSlot 0 constValue (scale8 (varScale + constScale))
    | .mul, none, some (constScale, constValue) =>
      (lower lhs s).bind fun (varScale, varSlot, s) =>
        pushChecked s .numericMulVarConst varSlot 0 constValue (scale8 (varScale + constScale))
    | .mul, none, none =>
      (lower lhs s).bind fun (lhsScale, lhsSlot, s) =>
      (lower rhs s).bind fun (rhsScale, rhsSlot, s) =>
        pushChecked s .numericMulVarVar lhsSlot rhsSlot 0 (scale8 (lhsScale + rhsScale))
    | _, some _, some _ => none
    | op, some (lhsScale, lhsValue), none =>
      (lower rhs s).bind fun (rhsScale, rhsSlot, s) =>
      let outScale := max lhsScale rhsScale
      (rescaleInt64Constant lhsValue lhsScale outScale).bind fun lhsValue =>
        pushChecked s (if op = .sub then .numericSubConstVar else .numericAddConstVar) 0 rhsSlot
          lhsValue outScale
    | op, none, some (rhsScale, rhsValue) =>
      (lower lhs s).bind fun (lhsScale, lhsSlot, s) =>
      let outScale := max lhsScale rhsScale
      (appendScaleProjectStep lhsSlot lhsScale outScale s).bind fun (lhsAligned, s) =>
      (rescaleInt64Constant rhsValue rhsScale outScale).bind fun rhsValue =>
        pushChecked s (if op = .sub then .numericSubVarConst else .numericAddVarConst) lhsAligned 0
          rhsValue outScale
    | op, none, none =>
      (lower lhs s).bind fun (lhsScale, lhsSlot, s) =>
      (lower rhs s).bind fun (rhsScale, rhsSlot, s) =>
      let outScale := max lhsScale rhsScale
      (appendScaleProjectStep lhsSlot lhsScale outScale s).bind fun (lhsAligned, s) =>
      (appendScaleProjectStep rhsSlot rhsScale outScale s).bind fun (rhsAligned, s) =>
        pushChecked s (if op = .sub then .numericSubVarVar else .numericAddVarVar) lhsAligned
          rhsAligned 0 outScale

/-! ## What the steps compute -/

/-- The scale of a lowered expression. -/
def Expr.scale : Expr → Int
  | .slot _ scale _ => scale
  | .const scale _ _ => scale
  | .binary op lhs rhs =>
    match op with
    | .div => divisionScale (lhs.asConst.isSome || rhs.asConst.isSome) lhs.scale rhs.scale
    | .mul => scale8 (lhs.scale + rhs.scale)
    | .add | .sub => max lhs.scale rhs.scale

/-- An operand at the scale of the result. -/
def align (scale outScale : Int) (a : Int64) : Int64 :=
  a * Int64.ofInt (10 ^ (outScale - scale).toNat)

/-- A sum or a difference. -/
def sumOf (op : ArithOp) (a b : Int64) : Int64 := if op = .sub then a - b else a + b

/-- The result of an operation on two operands that are not NULL. -/
def combine (op : ArithOp) (lhs rhs : Expr) (a b : Int64) : Except String (Option Int64) :=
  let outScale := (Expr.binary op lhs rhs).scale
  match op with
  | .div => divide (Int64.ofInt (10 ^ (outScale + rhs.scale - lhs.scale).toNat)) a b
  | .mul => .ok (some (a * b))
  | .add | .sub => .ok (some (sumOf op (align lhs.scale outScale a)
      (if lhs.asConst.isSome then b else align rhs.scale outScale b)))

/-- The result of an operation. -/
def combine? (op : ArithOp) (lhs rhs : Expr) :
    Option Int64 → Option Int64 → Except String (Option Int64)
  | some a, some b => combine op lhs rhs a b
  | _, _ => .ok none

/-- The value of an expression as the steps compute it. -/
def Expr.eval : Expr → Slots → Except String (Option Int64)
  | .slot k _ _, row => .ok (row k)
  | .const _ value _, _ => .ok (some value)
  | .binary op lhs rhs, row =>
    (lhs.eval row).bind fun a => (rhs.eval row).bind fun b => combine? op lhs rhs a b

/-- All slots an expression reads lie before one. -/
def Expr.ReadsBelow (bound : Nat) : Expr → Prop
  | .slot k _ _ => k < bound
  | .const _ _ _ => True
  | .binary _ lhs rhs => lhs.ReadsBelow bound ∧ rhs.ReadsBelow bound

/-! ## Programs that are run -/

/-- What the steps between two states do to every row: they keep the slots there were, and
what is read afterwards is a function of the row. -/
structure After {α : Type} (s s' : LowerState) (value : Slots → Except String α)
    (read : Slots → α) : Prop where
  next_le : s.nextInt64Slot ≤ s'.nextInt64Slot
  reads : ∀ row row' : Slots, (∀ k < s'.nextInt64Slot, row k = row' k) → read row = read row'
  run : ∃ new, s'.steps = s.steps ++ new ∧ ∀ row, (execute new row).map read = value row ∧
    ∀ row', execute new row = .ok row' → ∀ k < s.nextInt64Slot, row' k = row k

theorem execute_append (xs ys : List ProjectStep) (row : Slots) :
    execute (xs ++ ys) row = (execute xs row).bind (execute ys) :=
  List.foldlM_append

theorem execute_singleton (step : ProjectStep) (row : Slots) :
    execute [step] row = executeStep row step := by
  rw [execute, List.foldlM_cons]
  cases executeStep row step <;> rfl

section After

variable {α β : Type} {s s' s'' : LowerState} {value : Slots → Except String α} {read : Slots → α}

/-- No step: a slot is read as it is. -/
theorem after_slot {k : Nat} (hk : k < s.nextInt64Slot) :
    After s s (fun row => .ok (row k)) fun row => row k :=
  ⟨le_rfl, fun _ _ h => h k hk, [], (List.append_nil _).symm, fun row =>
    ⟨rfl, fun row' h k _ => by rw [← Except.ok.inj h]⟩⟩

/-- One more step, whose result is a function of what has been read. -/
theorem After.push (h : After s s' value read) {op : ProjectOp} {inA inB : Nat} {c : Int64}
    {f : α → Except String (Option Int64)} {other : Slots → β} {g : α → β}
    (hstep : ∀ row, stepResult ⟨op, inA, inB, s'.nextInt64Slot, c⟩ row = f (read row))
    (hother : ∀ row, other row = g (read row)) :
    After s (s'.push op inA inB c)
      (fun row => (value row).bind fun a => (f a).map fun v => (v, g a))
      fun row => (row s'.nextInt64Slot, other row) := by
  obtain ⟨new, hnew, hrun⟩ := h.run
  refine ⟨h.next_le.trans (Nat.le_succ _), fun row row' hsame => ?_,
    new ++ [⟨op, inA, inB, s'.nextInt64Slot, c⟩], ?_, fun row => ?_⟩
  · rw [hsame _ (Nat.lt_succ_self _), hother, hother,
      h.reads row row' fun k hk => hsame k (Nat.lt_succ_of_lt hk)]
  · rw [LowerState.push, hnew, List.append_assoc]
  · obtain ⟨hvalue, hframe⟩ := hrun row
    rw [execute_append, ← hvalue]
    cases hexec : execute new row with
    | error m => exact ⟨rfl, fun row' h' => nomatch h'⟩
    | ok mid =>
      show (execute [_] mid).map _ = ((f (read mid)).map fun v => (v, g (read mid))) ∧ _
      rw [Except.bind, execute_singleton, executeStep, hstep]
      cases f (read mid) with
      | error m => exact ⟨rfl, fun row' h' => nomatch h'⟩
      | ok v =>
        have hread : read (Function.update mid s'.nextInt64Slot v) = read mid :=
          h.reads _ _ fun k hk => Function.update_of_ne hk.ne _ _
        constructor
        · show Except.ok (Function.update mid s'.nextInt64Slot v s'.nextInt64Slot,
            other (Function.update mid s'.nextInt64Slot v)) = _
          rw [Function.update_self, hother, hread]
          rfl
        · intro row' h' k hk
          obtain rfl := Except.ok.inj h'
          show Function.update mid s'.nextInt64Slot v k = row k
          rw [Function.update_of_ne (hk.trans_le h.next_le).ne]
          exact hframe mid hexec k hk

/-- One program after the other; the second one reads what was there before the first. -/
theorem After.seq (h : After s s' value read) {value' : Slots → Except String β}
    {read' : Slots → β} (h' : After s' s'' value' read')
    (hsame : ∀ row row', (∀ k < s.nextInt64Slot, row k = row' k) → value' row = value' row') :
    After s s'' (fun row => (value row).bind fun a => (value' row).map fun b => (a, b))
      fun row => (read row, read' row) := by
  obtain ⟨new, hnew, hrun⟩ := h.run
  obtain ⟨new', hnew', hrun'⟩ := h'.run
  refine ⟨h.next_le.trans h'.next_le, fun row row' hrow => ?_, new ++ new', ?_, fun row => ?_⟩
  · rw [h.reads row row' fun k hk => hrow k (hk.trans_le h'.next_le), h'.reads row row' hrow]
  · rw [hnew', hnew, List.append_assoc]
  · obtain ⟨hvalue, hframe⟩ := hrun row
    rw [execute_append, ← hvalue]
    cases hexec : execute new row with
    | error m => exact ⟨rfl, fun row' h' => nomatch h'⟩
    | ok mid =>
      obtain ⟨hvalue', hframe'⟩ := hrun' mid
      show (execute new' mid).map _ = ((value' row).map fun b => (read mid, b)) ∧ _
      rw [← hsame mid row (hframe mid hexec), ← hvalue', Except.bind]
      cases hexec' : execute new' mid with
      | error m => exact ⟨rfl, fun row' h' => nomatch h'⟩
      | ok last =>
        have hread : read last = read mid := h.reads _ _ (hframe' last hexec')
        constructor
        · show Except.ok (read last, read' last) = Except.ok (read mid, read' last)
          rw [hread]
        · intro row' h' k hk
          obtain rfl := Except.ok.inj h'
          rw [hframe' last hexec' k (hk.trans_le h.next_le), hframe mid hexec k hk]

/-- Part of what was read. -/
theorem After.map (h : After s s' value read) {other : Slots → β} {g : α → β}
    (hother : ∀ row, other row = g (read row)) :
    After s s' (fun row => (value row).map g) other := by
  obtain ⟨new, hnew, hrun⟩ := h.run
  refine ⟨h.next_le, fun row row' hrow => by rw [hother, hother, h.reads row row' hrow], new, hnew,
    fun row => ⟨?_, (hrun row).2⟩⟩
  rw [← (hrun row).1]
  cases execute new row with
  | error m => rfl
  | ok last => exact congrArg Except.ok (hother last)

end After

/-! ## What is lowered -/

theorem eval_congr {e : Expr} {bound : Nat} (hbelow : e.ReadsBelow bound) {row row' : Slots}
    (hrow : ∀ k < bound, row k = row' k) : e.eval row = e.eval row' := by
  induction e with
  | slot k scale integral => exact congrArg Except.ok (hrow k hbelow)
  | const scale value integral => rfl
  | binary op lhs rhs ihl ihr => rw [Expr.eval, Expr.eval, ihl hbelow.1, ihr hbelow.2]

theorem Expr.ReadsBelow.mono {e : Expr} {bound bound' : Nat} (h : e.ReadsBelow bound)
    (hle : bound ≤ bound') : e.ReadsBelow bound' := by
  induction e with
  | slot k scale integral => exact lt_of_lt_of_le h hle
  | const scale value integral => trivial
  | binary op lhs rhs ihl ihr => exact ⟨ihl h.1, ihr h.2⟩

theorem asConst_eq_some {e : Expr} {scale : Int} {value : Int64}
    (h : e.asConst = some (scale, value)) :
    e.scale = scale ∧ ∀ row, e.eval row = .ok (some value) := by
  cases e with
  | const scale' value' integral =>
    obtain ⟨rfl, rfl⟩ := Prod.mk.inj (Option.some.inj h)
    exact ⟨rfl, fun row => rfl⟩
  | slot k scale' integral => cases h
  | binary op lhs rhs => cases h

/-- A power of ten that is an `int64`. -/
theorem pow10Int64_eq_some {exp : Int} {factor : Int64} (h : pow10Int64 exp = some factor) :
    0 ≤ exp ∧ exp ≤ 18 ∧ factor = Int64.ofInt (10 ^ exp.toNat) := by
  rw [pow10Int64] at h
  by_cases hexp : exp < 0 ∨ 18 < exp
  · rw [if_pos hexp] at h
    cases h
  · rw [if_neg hexp] at h
    exact ⟨by omega, by omega, (Option.some.inj h).symm⟩

theorem toInt_pow10 {k : Nat} (hk : k ≤ 18) : (Int64.ofInt (10 ^ k)).toInt = 10 ^ k := by
  have hle : (10 : Int) ^ k ≤ 10 ^ 18 := pow_le_pow_right₀ (by norm_num) hk
  have hpos : (0 : Int) < 10 ^ k := by positivity
  exact Int64.toInt_ofInt_of_le (by omega) (by omega)

theorem align_self (scale : Int) (a : Int64) : align scale scale a = a := by
  have hone : Int64.ofInt (10 ^ (scale - scale).toNat) = 1 := by
    rw [sub_self]
    rfl
  rw [align, hone, Int64.mul_one]

section Lower

variable {α : Type} {s s' s'' : LowerState} {value : Slots → Except String α} {read : Slots → α}

/-- An operand is aligned, by a step or because it has the scale. -/
theorem After.align {k k' : Nat} {inputScale outScale : Int} (h : After s s' value read)
    {g : α → Option Int64} (hread : ∀ row : Slots, row k = g (read row)) (hle : inputScale ≤ outScale)
    (happend : appendScaleProjectStep k inputScale outScale s' = some (k', s'')) :
    outScale - inputScale ≤ 18 ∧
      After s s'' (fun row => (value row).map fun a => ((g a).map (align inputScale outScale), a))
        fun row => (row k', read row) := by
  rw [appendScaleProjectStep] at happend
  by_cases hsame : inputScale = outScale
  · rw [if_pos hsame] at happend
    obtain ⟨rfl, rfl⟩ := Prod.mk.inj (Option.some.inj happend)
    subst hsame
    refine ⟨by omega, h.map fun row => ?_⟩
    have hid : ProjectionSteps.align inputScale inputScale = id := funext (align_self inputScale)
    rw [hid, Option.map_id, hread row]
    rfl
  · rw [if_neg hsame] at happend
    obtain ⟨factor, hfactor, hrest⟩ := Option.bind_eq_some_iff.1 happend
    obtain ⟨-, hexp, hpow⟩ := pow10Int64_eq_some hfactor
    by_cases hfull : 16 ≤ s'.nextInt64Slot
    · rw [if_pos hfull] at hrest
      cases hrest
    · rw [if_neg hfull, if_pos (by omega)] at hrest
      obtain ⟨rfl, rfl⟩ := Prod.mk.inj (Option.some.inj hrest)
      refine ⟨by omega, ?_⟩
      have hnat : ((outScale - inputScale).natAbs : Int).toNat = (outScale - inputScale).toNat := by
        omega
      rw [hnat] at hpow
      have hpos : (0 : Int64) ≤ factor := by
        rw [Int64.le_iff_toInt_le, hpow, toInt_pow10 (by omega)]
        exact Int.le_of_lt (by positivity)
      have hstep : ∀ row : Slots,
          stepResult ⟨.numericScaleVarConst, k, 0, s'.nextInt64Slot, factor⟩ row =
            .ok ((g (read row)).map (ProjectionSteps.align inputScale outScale)) := by
        intro row
        show Except.ok ((row k).map fun a => if 0 ≤ factor then a * factor else a / -factor) = _
        simp only [hread row, if_pos hpos]
        rw [hpow]
        rfl
      have hpush := @After.push α α s s' value read h _ _ _ _ (fun a =>
        .ok ((g a).map (ProjectionSteps.align inputScale outScale))) read id hstep fun row => rfl
      have hvalue : (fun row => (value row).bind fun a =>
          ((Except.ok ((g a).map (ProjectionSteps.align inputScale outScale)) :
            Except String (Option Int64)).map fun v => (v, id a))) =
          fun row => (value row).map fun a =>
            ((g a).map (ProjectionSteps.align inputScale outScale), a) := by
        funext row
        cases value row <;> rfl
      rwa [hvalue] at hpush

theorem rescaleInt64Constant_eq {v v' : Int64} {fromScale toScale : Int} (hle : fromScale ≤ toScale)
    (h : rescaleInt64Constant v fromScale toScale = some v') :
    toScale - fromScale ≤ 18 ∧ v' = ProjectionSteps.align fromScale toScale v := by
  rw [rescaleInt64Constant] at h
  by_cases hneg : toScale < 0 ∨ fromScale < 0
  · rw [if_pos hneg] at h
    cases h
  · rw [if_neg hneg, if_neg (not_lt.2 hle)] at h
    obtain ⟨factor, hfactor, rfl⟩ := Option.map_eq_some_iff.1 h
    obtain ⟨-, hexp, rfl⟩ := pow10Int64_eq_some hfactor
    exact ⟨hexp, rfl⟩

/-- The last step, in a slot that is written unchecked. -/
theorem After.last (h : After s s' value read) {op : ProjectOp} {inA inB : Nat} {c : Int64}
    {f : α → Except String (Option Int64)}
    (hstep : ∀ row, stepResult ⟨op, inA, inB, s'.nextInt64Slot, c⟩ row = f (read row)) :
    After s (s'.push op inA inB c) (fun row => (value row).bind f)
      fun row => row s'.nextInt64Slot := by
  have hpush := @After.push α Unit s s' value read h op inA inB c f (fun _ => ()) (fun _ => ())
    hstep fun row => rfl
  have hfst := @After.map _ _ _ _ _ _ hpush (fun row => row s'.nextInt64Slot) Prod.fst fun row => rfl
  have hvalue : (fun row => ((value row).bind fun a => (f a).map fun v => (v, ())).map Prod.fst) =
      fun row => (value row).bind f := by
    funext row
    cases value row with
    | error m => rfl
    | ok a =>
      show ((f a).map fun v => (v, ())).map Prod.fst = f a
      cases f a <;> rfl
  rwa [hvalue] at hfst

/-- The last step of most operations, for which there has to be a slot. -/
theorem After.finish (h : After s s' value read) {op : ProjectOp} {inA inB slot : Nat} {c : Int64}
    {outScale outScale' : Int} {f : α → Except String (Option Int64)}
    (hpush : pushChecked s' op inA inB c outScale = some (outScale', slot, s''))
    (hstep : ∀ row, stepResult ⟨op, inA, inB, s'.nextInt64Slot, c⟩ row = f (read row)) :
    outScale' = outScale ∧ slot < s''.nextInt64Slot ∧
      After s s'' (fun row => (value row).bind f) fun row => row slot := by
  rw [pushChecked] at hpush
  by_cases hfull : 16 ≤ s'.nextInt64Slot
  · rw [if_pos hfull] at hpush
    cases hpush
  · rw [if_neg hfull] at hpush
    obtain ⟨rfl, hrest⟩ := Prod.mk.inj (Option.some.inj hpush)
    obtain ⟨rfl, rfl⟩ := Prod.mk.inj hrest
    exact ⟨rfl, Nat.lt_succ_self _, h.last hstep⟩

/-- The powers of ten of the last operation are there. -/
def Expr.HasFactors : Expr → Prop
  | .binary .div lhs rhs =>
    let exp := (Expr.binary .div lhs rhs).scale + rhs.scale - lhs.scale
    0 ≤ exp ∧ exp ≤ 18
  | .binary .mul _ _ => True
  | .binary _ lhs rhs =>
    max lhs.scale rhs.scale - lhs.scale ≤ 18 ∧
      (lhs.asConst = none → max lhs.scale rhs.scale - rhs.scale ≤ 18)
  | _ => True

/-- What a lowering is asked for. -/
structure Lowered (e : Expr) (s : LowerState) (scale : Int) (slot : Nat) (s' : LowerState) :
    Prop where
  scale_eq : scale = e.scale
  slot_lt : slot < s'.nextInt64Slot
  hasFactors : e.HasFactors
  after : After s s' e.eval fun row => row slot

theorem Lowered.of_eq {e : Expr} {scale : Int} {slot : Nat}
    {value : Slots → Except String (Option Int64)}
    (h : scale = e.scale ∧ slot < s'.nextInt64Slot ∧ After s s' value fun row => row slot)
    (hfactors : e.HasFactors) (hvalue : ∀ row, value row = e.eval row) :
    Lowered e s scale slot s' := by
  obtain rfl : value = e.eval := funext hvalue
  exact ⟨h.1, h.2.1, hfactors, h.2.2⟩

end Lower

section Binary

variable {lhs rhs : Expr} {s s₁ s₂ s' : LowerState} {lhsScale rhsScale scale : Int}
  {lhsSlot rhsSlot slot : Nat}

/-- Both operands, the second one behind the first. -/
theorem after_operands (hl : Lowered lhs s lhsScale lhsSlot s₁)
    (hr : Lowered rhs s₁ rhsScale rhsSlot s₂) (hbelow : rhs.ReadsBelow s.nextInt64Slot) :
    After s s₂ (fun row => (lhs.eval row).bind fun a => (rhs.eval row).map fun b => (a, b))
      fun row => (row lhsSlot, row rhsSlot) :=
  hl.after.seq hr.after fun _ _ hrow => eval_congr hbelow hrow

/-- A result of both operands. -/
theorem bind_operands {f : Option Int64 × Option Int64 → Except String (Option Int64)}
    {op : ArithOp} (hf : ∀ a b, f (a, b) = combine? op lhs rhs a b) (row : Slots) :
    ((lhs.eval row).bind fun a => (rhs.eval row).map fun b => (a, b)).bind f =
      (Expr.binary op lhs rhs).eval row := by
  rw [Expr.eval]
  cases lhs.eval row with
  | error m => rfl
  | ok a =>
    cases rhs.eval row with
    | error m => rfl
    | ok b => exact hf a b

theorem lowered_div (hl : Lowered lhs s lhsScale lhsSlot s₁)
    (hr : Lowered rhs s₁ rhsScale rhsSlot s₂) (hbelow : rhs.ReadsBelow s.nextInt64Slot)
    {factor : Int64} (hfactor : pow10Int64 (divisionScale
      (lhs.asConst.isSome || rhs.asConst.isSome) lhsScale rhsScale + rhsScale - lhsScale) =
        some factor) :
    Lowered (.binary .div lhs rhs) s (divisionScale (lhs.asConst.isSome || rhs.asConst.isSome)
      lhsScale rhsScale) s₂.nextInt64Slot (s₂.push .numericDivVarVar lhsSlot rhsSlot factor) := by
  rw [hl.scale_eq, hr.scale_eq] at hfactor ⊢
  obtain ⟨hnonneg, hexp, hpow⟩ := pow10Int64_eq_some hfactor
  have hafter := after_operands hl hr hbelow
  refine Lowered.of_eq ⟨rfl, Nat.lt_succ_self _,
    @After.last _ _ _ _ _ hafter _ _ _ _ (fun p => divide? factor p.1 p.2) fun row => rfl⟩
    ⟨hnonneg, hexp⟩ fun row => bind_operands (fun a b => ?_) row
  cases a with
  | none => rfl
  | some a =>
    cases b with
    | none => rfl
    | some b =>
      rw [hpow]
      rfl

theorem lowered_mul (hl : Lowered lhs s lhsScale lhsSlot s₁)
    (hr : Lowered rhs s₁ rhsScale rhsSlot s₂) (hbelow : rhs.ReadsBelow s.nextInt64Slot)
    (hpush : pushChecked s₂ .numericMulVarVar lhsSlot rhsSlot 0 (scale8 (lhsScale + rhsScale)) =
      some (scale, slot, s')) : Lowered (.binary .mul lhs rhs) s scale slot s' := by
  have hafter := after_operands hl hr hbelow
  rw [hl.scale_eq, hr.scale_eq] at hpush
  refine Lowered.of_eq (@After.finish _ _ _ _ _ _ hafter _ _ _ _ _ _ _
    (fun p => .ok (lift₂ (· * ·) p.1 p.2)) hpush fun row => rfl)
    trivial fun row => bind_operands (fun a b => ?_) row
  cases a with
  | none => rfl
  | some a => cases b <;> rfl

/-- A product with a constant, which may stand on either side. -/
theorem lowered_mul_const {var : Expr} {varScale constScale : Int} {varSlot : Nat} {v : Int64}
    (hvar : Lowered var s varScale varSlot s₁)
    (hpush : pushChecked s₁ .numericMulVarConst varSlot 0 v (scale8 (varScale + constScale)) =
      some (scale, slot, s'))
    (h : (lhs.asConst = some (constScale, v) ∧ var = rhs) ∨
      (rhs.asConst = some (constScale, v) ∧ var = lhs)) :
    Lowered (.binary .mul lhs rhs) s scale slot s' := by
  have hfinish := @After.finish _ _ _ _ _ _ hvar.after _ _ _ _ _ _ _
    (fun b => .ok (b.map (· * v))) hpush fun row => rfl
  rw [hvar.scale_eq] at hfinish
  rcases h with ⟨hconst, rfl⟩ | ⟨hconst, rfl⟩
  · obtain ⟨hscale, heval⟩ := asConst_eq_some hconst
    refine Lowered.of_eq ⟨?_, hfinish.2⟩ trivial fun row => ?_
    · rw [hfinish.1, Expr.scale, hscale, add_comm]
    · rw [Expr.eval, heval row]
      cases var.eval row with
      | error m => rfl
      | ok b =>
        cases b with
        | none => rfl
        | some b => exact congrArg (fun x => Except.ok (some x)) (Int64.mul_comm b v)
  · obtain ⟨hscale, heval⟩ := asConst_eq_some hconst
    refine Lowered.of_eq ⟨?_, hfinish.2⟩ trivial fun row => ?_
    · rw [hfinish.1, Expr.scale, hscale]
    · rw [Expr.eval, heval row]
      cases var.eval row with
      | error m => rfl
      | ok b => cases b <;> rfl

end Binary

/-! ## Sums -/

section Sum

variable {op : ArithOp} {lhs rhs : Expr} {s s₁ s₂ s₃ s₄ s' : LowerState}
  {lhsScale rhsScale scale : Int} {lhsSlot rhsSlot lhsAligned rhsAligned slot : Nat}

theorem scale_sum (hop : op = .add ∨ op = .sub) :
    (Expr.binary op lhs rhs).scale = max lhs.scale rhs.scale := by
  rcases hop with rfl | rfl <;> rfl

theorem hasFactors_sum (hop : op = .add ∨ op = .sub)
    (hl : max lhs.scale rhs.scale - lhs.scale ≤ 18)
    (hr : lhs.asConst = none → max lhs.scale rhs.scale - rhs.scale ≤ 18) :
    (Expr.binary op lhs rhs).HasFactors := by
  rcases hop with rfl | rfl <;> exact ⟨hl, hr⟩

theorem combine_sum (hop : op = .add ∨ op = .sub) (a b : Int64) :
    combine op lhs rhs a b = .ok (some (sumOf op (align lhs.scale (max lhs.scale rhs.scale) a)
      (if lhs.asConst.isSome then b else align rhs.scale (max lhs.scale rhs.scale) b))) := by
  rcases hop with rfl | rfl <;> rfl

/-- A constant before the operator: what stands behind it is taken as it is. -/
theorem lowered_sum_const_var (hop : op = .add ∨ op = .sub) {v v' : Int64}
    (hconst : lhs.asConst = some (lhsScale, v)) (hr : Lowered rhs s rhsScale rhsSlot s₁)
    (hrescale : rescaleInt64Constant v lhsScale (max lhsScale rhsScale) = some v')
    (hpush : pushChecked s₁ (if op = .sub then .numericSubConstVar else .numericAddConstVar) 0
      rhsSlot v' (max lhsScale rhsScale) = some (scale, slot, s')) :
    Lowered (.binary op lhs rhs) s scale slot s' := by
  obtain ⟨hscale, heval⟩ := asConst_eq_some hconst
  obtain ⟨hcexp, rfl⟩ := rescaleInt64Constant_eq (le_max_left _ _) hrescale
  rw [← hscale, hr.scale_eq] at hpush hcexp
  have hfinish := hr.after.finish (f := fun b => .ok (b.map
    (sumOf op (align lhs.scale (max lhs.scale rhs.scale) v)))) hpush fun row => by
      rcases hop with rfl | rfl <;> rfl
  refine Lowered.of_eq ⟨hfinish.1.trans (scale_sum hop).symm, hfinish.2⟩
    (hasFactors_sum hop hcexp fun hnone => by rw [hconst] at hnone; cases hnone) fun row => ?_
  rw [Expr.eval, heval row]
  cases rhs.eval row with
  | error m => rfl
  | ok b =>
    cases b with
    | none => rfl
    | some b =>
      show _ = combine op lhs rhs v b
      rw [combine_sum hop, hconst]
      rfl

theorem lowered_sum_var_const (hop : op = .add ∨ op = .sub) {v v' : Int64}
    (hlconst : lhs.asConst = none) (hconst : rhs.asConst = some (rhsScale, v))
    (hl : Lowered lhs s lhsScale lhsSlot s₁)
    (halign : appendScaleProjectStep lhsSlot lhsScale (max lhsScale rhsScale) s₁ =
      some (lhsAligned, s₂))
    (hrescale : rescaleInt64Constant v rhsScale (max lhsScale rhsScale) = some v')
    (hpush : pushChecked s₂ (if op = .sub then .numericSubVarConst else .numericAddVarConst)
      lhsAligned 0 v' (max lhsScale rhsScale) = some (scale, slot, s')) :
    Lowered (.binary op lhs rhs) s scale slot s' := by
  obtain ⟨hscale, heval⟩ := asConst_eq_some hconst
  obtain ⟨hcexp, rfl⟩ := rescaleInt64Constant_eq (le_max_right _ _) hrescale
  rw [← hscale, hl.scale_eq] at hpush halign hcexp
  obtain ⟨hlexp, hafter⟩ := @After.align _ _ _ _ _ _ _ _ _ _ hl.after id (fun row => rfl)
    (le_max_left _ _) halign
  have hfinish := hafter.finish (f := fun p => .ok (p.1.map fun a =>
    sumOf op a (align rhs.scale (max lhs.scale rhs.scale) v))) hpush fun row => by
      rcases hop with rfl | rfl <;> rfl
  refine Lowered.of_eq ⟨hfinish.1.trans (scale_sum hop).symm, hfinish.2⟩
    (hasFactors_sum hop hlexp fun _ => hcexp) fun row => ?_
  rw [Expr.eval, heval row]
  cases lhs.eval row with
  | error m => rfl
  | ok a =>
    cases a with
    | none => rfl
    | some a =>
      show _ = combine op lhs rhs a v
      rw [combine_sum hop, hlconst]
      rfl

theorem lowered_sum_var_var (hop : op = .add ∨ op = .sub) (hlconst : lhs.asConst = none)
    (hl : Lowered lhs s lhsScale lhsSlot s₁) (hr : Lowered rhs s₁ rhsScale rhsSlot s₂)
    (hbelow : rhs.ReadsBelow s.nextInt64Slot)
    (hlalign : appendScaleProjectStep lhsSlot lhsScale (max lhsScale rhsScale) s₂ =
      some (lhsAligned, s₃))
    (hralign : appendScaleProjectStep rhsSlot rhsScale (max lhsScale rhsScale) s₃ =
      some (rhsAligned, s₄))
    (hpush : pushChecked s₄ (if op = .sub then .numericSubVarVar else .numericAddVarVar)
      lhsAligned rhsAligned 0 (max lhsScale rhsScale) = some (scale, slot, s')) :
    Lowered (.binary op lhs rhs) s scale slot s' := by
  rw [hl.scale_eq, hr.scale_eq] at hpush hlalign hralign
  obtain ⟨hlexp, hleft⟩ := (after_operands hl hr hbelow).align (g := Prod.fst) (fun row => rfl)
    (le_max_left _ _) hlalign
  obtain ⟨hrexp, hafter⟩ := hleft.align (g := fun p => p.2.2) (fun row => rfl)
    (le_max_right _ _) hralign
  have hfinish := hafter.finish (f := fun p => .ok (lift₂ (sumOf op) p.2.1 p.1)) hpush
    fun row => by rcases hop with rfl | rfl <;> rfl
  refine Lowered.of_eq ⟨hfinish.1.trans (scale_sum hop).symm, hfinish.2⟩
    (hasFactors_sum hop hlexp fun _ => hrexp) fun row => ?_
  rw [Expr.eval]
  cases lhs.eval row with
  | error m => rfl
  | ok a =>
    cases rhs.eval row with
    | error m => rfl
    | ok b =>
      cases a with
      | none => rfl
      | some a =>
        cases b with
        | none => rfl
        | some b =>
          show _ = combine op lhs rhs a b
          rw [combine_sum hop, hlconst]
          rfl

end Sum

/-! ## Lowered expressions -/

/-- An expression that is lowered, behind the slots it reads. -/
def Expr.Lowerable (e : Expr) : Prop :=
  ∃ s r, e.ReadsBelow s.nextInt64Slot ∧ lower e s = some r

/-- The operations in an expression. -/
def Expr.arithmetic : Expr → List Expr
  | .slot _ _ _ => []
  | .const _ _ _ => []
  | .binary op lhs rhs => .binary op lhs rhs :: (lhs.arithmetic ++ rhs.arithmetic)

section Binary

variable {op : ArithOp} {lhs rhs : Expr} {s s' : LowerState} {scale : Int} {slot : Nat}

theorem lower_sum (hop : op = .add ∨ op = .sub)
    (h : lower (.binary op lhs rhs) s = some (scale, slot, s'))
    (hbelow : (Expr.binary op lhs rhs).ReadsBelow s.nextInt64Slot)
    (ihl : ∀ {s scale slot s'}, lower lhs s = some (scale, slot, s') →
      lhs.ReadsBelow s.nextInt64Slot → Lowered lhs s scale slot s')
    (ihr : ∀ {s scale slot s'}, lower rhs s = some (scale, slot, s') →
      rhs.ReadsBelow s.nextInt64Slot → Lowered rhs s scale slot s') :
    Lowered (.binary op lhs rhs) s scale slot s' ∧ (lhs.asConst = none → lhs.Lowerable) ∧
      (rhs.asConst = none → rhs.Lowerable) := by
  cases hlconst : lhs.asConst with
  | some l =>
    cases hrconst : rhs.asConst with
    | some r => rcases hop with rfl | rfl <;> simp [lower, hlconst, hrconst] at h
    | none =>
      obtain ⟨lhsScale, v⟩ := l
      have hlower : (lower rhs s).bind (fun (rhsScale, rhsSlot, s) =>
          (rescaleInt64Constant v lhsScale (max lhsScale rhsScale)).bind fun v =>
            pushChecked s (if op = .sub then .numericSubConstVar else .numericAddConstVar) 0 rhsSlot
              v (max lhsScale rhsScale)) = some (scale, slot, s') := by
        rcases hop with rfl | rfl <;> simpa only [lower, hlconst, hrconst] using h
      obtain ⟨⟨rhsScale, rhsSlot, s₁⟩, hr, hrest⟩ := Option.bind_eq_some_iff.1 hlower
      obtain ⟨v', hrescale, hpush⟩ := Option.bind_eq_some_iff.1 hrest
      exact ⟨lowered_sum_const_var hop hlconst (ihr hr hbelow.2) hrescale hpush,
        (nomatch ·), fun _ => ⟨s, _, hbelow.2, hr⟩⟩
  | none =>
    cases hrconst : rhs.asConst with
    | some r =>
      obtain ⟨rhsScale, v⟩ := r
      have hlower : (lower lhs s).bind (fun (lhsScale, lhsSlot, s) =>
          (appendScaleProjectStep lhsSlot lhsScale (max lhsScale rhsScale) s).bind
            fun (lhsAligned, s) =>
          (rescaleInt64Constant v rhsScale (max lhsScale rhsScale)).bind fun v =>
            pushChecked s (if op = .sub then .numericSubVarConst else .numericAddVarConst)
              lhsAligned 0 v (max lhsScale rhsScale)) = some (scale, slot, s') := by
        rcases hop with rfl | rfl <;> simpa only [lower, hlconst, hrconst] using h
      obtain ⟨⟨lhsScale, lhsSlot, s₁⟩, hl, hrest⟩ := Option.bind_eq_some_iff.1 hlower
      obtain ⟨⟨lhsAligned, s₂⟩, halign, hrest⟩ := Option.bind_eq_some_iff.1 hrest
      obtain ⟨v', hrescale, hpush⟩ := Option.bind_eq_some_iff.1 hrest
      exact ⟨lowered_sum_var_const hop hlconst hrconst (ihl hl hbelow.1) halign hrescale hpush,
        fun _ => ⟨s, _, hbelow.1, hl⟩, (nomatch ·)⟩
    | none =>
      have hlower : (lower lhs s).bind (fun (lhsScale, lhsSlot, s) =>
          (lower rhs s).bind fun (rhsScale, rhsSlot, s) =>
          (appendScaleProjectStep lhsSlot lhsScale (max lhsScale rhsScale) s).bind
            fun (lhsAligned, s) =>
          (appendScaleProjectStep rhsSlot rhsScale (max lhsScale rhsScale) s).bind
            fun (rhsAligned, s) =>
            pushChecked s (if op = .sub then .numericSubVarVar else .numericAddVarVar)
              lhsAligned rhsAligned 0 (max lhsScale rhsScale)) = some (scale, slot, s') := by
        rcases hop with rfl | rfl <;> simpa only [lower, hlconst, hrconst] using h
      obtain ⟨⟨lhsScale, lhsSlot, s₁⟩, hl, hrest⟩ := Option.bind_eq_some_iff.1 hlower
      obtain ⟨⟨rhsScale, rhsSlot, s₂⟩, hr, hrest⟩ := Option.bind_eq_some_iff.1 hrest
      obtain ⟨⟨lhsAligned, s₃⟩, hlalign, hrest⟩ := Option.bind_eq_some_iff.1 hrest
      obtain ⟨⟨rhsAligned, s₄⟩, hralign, hpush⟩ := Option.bind_eq_some_iff.1 hrest
      have hlowered := ihl hl hbelow.1
      have hbelow₁ := hbelow.2.mono hlowered.after.next_le
      exact ⟨lowered_sum_var_var hop hlconst hlowered (ihr hr hbelow₁) hbelow.2 hlalign hralign
        hpush, fun _ => ⟨s, _, hbelow.1, hl⟩, fun _ => ⟨s₁, _, hbelow₁, hr⟩⟩

/-- What lowering an operation says about it, given its operands. -/
theorem lower_binary (h : lower (.binary op lhs rhs) s = some (scale, slot, s'))
    (hbelow : (Expr.binary op lhs rhs).ReadsBelow s.nextInt64Slot)
    (ihl : ∀ {s scale slot s'}, lower lhs s = some (scale, slot, s') →
      lhs.ReadsBelow s.nextInt64Slot → Lowered lhs s scale slot s')
    (ihr : ∀ {s scale slot s'}, lower rhs s = some (scale, slot, s') →
      rhs.ReadsBelow s.nextInt64Slot → Lowered rhs s scale slot s') :
    Lowered (.binary op lhs rhs) s scale slot s' ∧ (lhs.asConst = none → lhs.Lowerable) ∧
      (rhs.asConst = none → rhs.Lowerable) := by
  cases op with
  | add => exact lower_sum (Or.inl rfl) h hbelow ihl ihr
  | sub => exact lower_sum (Or.inr rfl) h hbelow ihl ihr
  | div =>
    simp only [lower] at h
    by_cases hfull : 16 ≤ s.nextInt64Slot
    · rw [if_pos hfull] at h
      cases h
    · rw [if_neg hfull] at h
      obtain ⟨⟨lhsScale, lhsSlot, s₁⟩, hl, hrest⟩ := Option.bind_eq_some_iff.1 h
      obtain ⟨⟨rhsScale, rhsSlot, s₂⟩, hr, hrest⟩ := Option.bind_eq_some_iff.1 hrest
      obtain ⟨factor, hfactor, hpush⟩ := Option.map_eq_some_iff.1 hrest
      obtain ⟨rfl, hslot⟩ := Prod.mk.inj hpush
      obtain ⟨rfl, rfl⟩ := Prod.mk.inj hslot
      have hlowered := ihl hl hbelow.1
      have hbelow₁ := hbelow.2.mono hlowered.after.next_le
      exact ⟨lowered_div hlowered (ihr hr hbelow₁) hbelow.2 hfactor,
        fun _ => ⟨s, _, hbelow.1, hl⟩, fun _ => ⟨s₁, _, hbelow₁, hr⟩⟩
  | mul =>
    cases hlconst : lhs.asConst with
    | some l =>
      cases hrconst : rhs.asConst with
      | some r => simp [lower, hlconst, hrconst] at h
      | none =>
        obtain ⟨constScale, v⟩ := l
        simp only [lower, hlconst, hrconst] at h
        obtain ⟨⟨rhsScale, rhsSlot, s₁⟩, hr, hpush⟩ := Option.bind_eq_some_iff.1 h
        exact ⟨lowered_mul_const (ihr hr hbelow.2) hpush (Or.inl ⟨hlconst, rfl⟩), (nomatch ·),
          fun _ => ⟨s, _, hbelow.2, hr⟩⟩
    | none =>
      cases hrconst : rhs.asConst with
      | some r =>
        obtain ⟨constScale, v⟩ := r
        simp only [lower, hlconst, hrconst] at h
        obtain ⟨⟨lhsScale, lhsSlot, s₁⟩, hl, hpush⟩ := Option.bind_eq_some_iff.1 h
        exact ⟨lowered_mul_const (ihl hl hbelow.1) hpush (Or.inr ⟨hrconst, rfl⟩),
          fun _ => ⟨s, _, hbelow.1, hl⟩, (nomatch ·)⟩
      | none =>
        simp only [lower, hlconst, hrconst] at h
        obtain ⟨⟨lhsScale, lhsSlot, s₁⟩, hl, hrest⟩ := Option.bind_eq_some_iff.1 h
        obtain ⟨⟨rhsScale, rhsSlot, s₂⟩, hr, hpush⟩ := Option.bind_eq_some_iff.1 hrest
        have hlowered := ihl hl hbelow.1
        have hbelow₁ := hbelow.2.mono hlowered.after.next_le
        exact ⟨lowered_mul hlowered (ihr hr hbelow₁) hbelow.2 hpush,
          fun _ => ⟨s, _, hbelow.1, hl⟩, fun _ => ⟨s₁, _, hbelow₁, hr⟩⟩

end Binary

/-- **What is lowered is computed**: the steps of an expression leave its value in its slot, or
raise its error. -/
theorem lowered_of_lower {e : Expr} {s s' : LowerState} {scale : Int} {slot : Nat}
    (h : lower e s = some (scale, slot, s')) (hbelow : e.ReadsBelow s.nextInt64Slot) :
    Lowered e s scale slot s' := by
  induction e generalizing s scale slot s' with
  | slot k scale' integral =>
    obtain ⟨rfl, hrest⟩ := Prod.mk.inj (Option.some.inj h)
    obtain ⟨rfl, rfl⟩ := Prod.mk.inj hrest
    exact ⟨rfl, hbelow, trivial, after_slot hbelow⟩
  | const scale' value integral =>
    have hnone : After s s (fun _ => .ok ()) fun _ => () :=
      ⟨le_rfl, fun _ _ _ => rfl, [], (List.append_nil _).symm, fun row =>
        ⟨rfl, fun row' h k _ => by rw [← Except.ok.inj h]⟩⟩
    exact Lowered.of_eq (hnone.finish (f := fun _ => .ok (some value)) h fun row => rfl) trivial
      fun row => rfl
  | binary op lhs rhs ihl ihr => exact (lower_binary h hbelow ihl ihr).1

theorem Expr.Lowerable.operands {op : ArithOp} {lhs rhs : Expr}
    (h : (Expr.binary op lhs rhs).Lowerable) :
    (lhs.asConst = none → lhs.Lowerable) ∧ (rhs.asConst = none → rhs.Lowerable) := by
  obtain ⟨s, ⟨scale, slot, s'⟩, hbelow, hlower⟩ := h
  exact (lower_binary hlower hbelow lowered_of_lower lowered_of_lower).2

/-- The operations in an expression that is lowered are lowered. -/
theorem Expr.Lowerable.of_mem {e n : Expr} (h : e.Lowerable) (hn : n ∈ e.arithmetic) :
    n.Lowerable := by
  induction e with
  | slot k scale integral => cases hn
  | const scale value integral => cases hn
  | binary op lhs rhs ihl ihr =>
    rcases List.mem_cons.1 hn with rfl | hn
    · exact h
    · rcases List.mem_append.1 hn with hn | hn
      · refine ihl (h.operands.1 ?_) hn
        cases lhs with
        | const scale value integral => cases hn
        | _ => rfl
      · refine ihr (h.operands.2 ?_) hn
        cases rhs with
        | const scale value integral => cases hn
        | _ => rfl

/-- **The slot of an expression that is lowered** holds its value wherever its steps run to
their end. -/
theorem execute_lower {e : Expr} {s s' : LowerState} {scale : Int} {slot : Nat}
    (h : lower e s = some (scale, slot, s')) (hbelow : e.ReadsBelow s.nextInt64Slot) :
    ∃ new, s'.steps = s.steps ++ new ∧
      ∀ row, (execute new row).map (fun row' => row' slot) = e.eval row := by
  obtain ⟨new, hnew, hrun⟩ := (lowered_of_lower h hbelow).after.run
  exact ⟨new, hnew, fun row => (hrun row).1⟩

end ProjectionSteps
end PgYaap
