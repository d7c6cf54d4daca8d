import PgYaap.ProjectionRegisters

/-! # The meaning of terms

A term stands for a value: a cell for what the child has put there, a result for what its step makes
of the values it has read. A tape that runs through leaves in each cell the value that the term of
the cell stands for, so a tape whose terms are right computes the right values. -/
namespace PgYaap
namespace ProjectionRegisters

open ProjectionTape

/-! ## Values -/

/-- What a cell holds. -/
inductive Value
  | int32 (v : Int32)
  | int64 (v : Int64)
  | string (v : List UInt8)

/-- A cell of a row, nothing where its flag is set. -/
def cellValue (row : Row) : Storage → Nat → Option Value
  | .int32, slot => (row.int32Cell slot).map .int32
  | .int64, slot => (row.register slot).map .int64
  | .double, _ => none
  | .string, slot => (row.stringCell slot).map .string

def Value.asInt32 : Value → Int32
  | .int32 v => v
  | _ => 0

def Value.asInt64 : Value → Int64
  | .int64 v => v
  | _ => 0

def Value.asString : Value → List UInt8
  | .string v => v
  | _ => []

/-- A row with the operands of a step in its first slots. -/
def operandRow (values : List (Option Value)) : Row where
  int32 slot := ((values.getD slot none).map Value.asInt32).getD 0
  int64 slot := ((values.getD slot none).map Value.asInt64).getD 0
  string slot := ((values.getD slot none).map Value.asString).getD []
  nulls slot := (values.getD slot none).isNone

/-- The step that reads its operands there. -/
def operandStep (op : ProjectOp) (len : Nat) (value : Int64) : ProjectStep :=
  match op with
  | .numeric .numericSubConstVar | .numeric .numericAddConstVar => ⟨op, 0, 0, 0, value⟩
  | .stringPrefixLike | .stringEqVarConst | .stringNeVarConst | .stringPrefixSlice =>
    ⟨op, 0, len, 0, value⟩
  | .numericCaseElseVar => ⟨op, 0, 1, 0, 2⟩
  | _ => ⟨op, 0, 1, 0, value⟩

/-- **What a step makes of its operands.** -/
def resultValue (yearOf : Int32 → Int64) (op : ProjectOp) (len : Nat) (value : Int64)
    (values : List (Option Value)) : Except String (Option Value) :=
  if op = .stringPrefixSlice then
    .ok (((operandRow values).stringCell 0).map fun s => .string (s.take len))
  else
    (stepInt64 yearOf (operandStep op len value) (operandRow values)).map (Option.map .int64)

mutual

/-- **The value of a term** over the row that the child has filled. -/
def Term.eval (yearOf : Int32 → Int64) (row : Row) : Term → Except String (Option Value)
  | .cell array slot => .ok (cellValue row array slot)
  | .lost => .error "a cell without a value"
  | .result op len value operands =>
    (evalAll yearOf row operands).bind (resultValue yearOf op len value)

def evalAll (yearOf : Int32 → Int64) (row : Row) :
    List Term → Except String (List (Option Value))
  | [] => .ok []
  | t :: ts => (t.eval yearOf row).bind fun v => (evalAll yearOf row ts).map (v :: ·)

end

/-! ## A step and its operands -/

section Step

variable {yearOf : Int32 → Int64} {row row' row₀ : Row} {step : ProjectStep}

theorem operandRow_register {values : List (Option Value)} {i slot : Nat}
    (h : values.getD i none = cellValue row .int64 slot) :
    (operandRow values).register i = row.register slot := by
  simp only [Row.register, Row.cell, operandRow, h, cellValue]
  cases row.nulls slot <;> rfl

theorem operandRow_int32 {values : List (Option Value)} {i slot : Nat}
    (h : values.getD i none = cellValue row .int32 slot) :
    (operandRow values).int32Cell i = row.int32Cell slot := by
  simp only [Row.int32Cell, Row.cell, operandRow, h, cellValue]
  cases row.nulls slot <;> rfl

theorem operandRow_string {values : List (Option Value)} {i slot : Nat}
    (h : values.getD i none = cellValue row .string slot) :
    (operandRow values).stringCell i = row.stringCell slot := by
  simp only [Row.stringCell, Row.cell, operandRow, h, cellValue]
  cases row.nulls slot <;> rfl

variable (row) in
@[simp] theorem operandRow_first (slot : Nat) (values : List (Option Value)) :
    (operandRow (cellValue row .int64 slot :: values)).register 0 = row.register slot :=
  operandRow_register rfl

variable (row) in
@[simp] theorem operandRow_second (slot : Nat) (v : Option Value) (values : List (Option Value)) :
    (operandRow (v :: cellValue row .int64 slot :: values)).register 1 = row.register slot :=
  operandRow_register rfl

variable (row) in
@[simp] theorem operandRow_third (slot : Nat) (v v' : Option Value) (values : List (Option Value)) :
    (operandRow (v :: v' :: cellValue row .int64 slot :: values)).register 2 = row.register slot :=
  operandRow_register rfl

variable (row) in
@[simp] theorem operandRow_date (slot : Nat) (values : List (Option Value)) :
    (operandRow (cellValue row .int32 slot :: values)).int32Cell 0 = row.int32Cell slot :=
  operandRow_int32 rfl

variable (row) in
@[simp] theorem operandRow_text (slot : Nat) (values : List (Option Value)) :
    (operandRow (cellValue row .string slot :: values)).stringCell 0 = row.stringCell slot :=
  operandRow_string rfl

/-- **The result of a step is made of its operands**, its length and its constant. -/
theorem stepInt64_eq (hop : step.op ≠ .stringPrefixSlice) :
    stepInt64 yearOf (operandStep step.op (length step) (literal step))
      (operandRow ((operands step).map fun cell => cellValue row cell.1 cell.2)) =
        stepInt64 yearOf step row := by
  obtain ⟨op, inA, inB, out, c⟩ := step
  cases op with
  | numeric op =>
    cases op <;>
      simp [operandStep, stepInt64, ProjectionSteps.stepResult, literal, operands]
  | stringPrefixSlice => exact absurd rfl hop
  | numericCaseElseVar =>
    have htwo : (⟨.numericCaseElseVar, 0, 1, 0, 2⟩ : ProjectStep).elseSlot = 2 := by decide
    simp only [operandStep, stepInt64, operands, List.map, htwo, operandRow_first,
      operandRow_second, operandRow_third]
  | _ =>
    simp [operandStep, stepInt64, literal, length, operands, stringPrefixMatches, stringEquals,
      ProjectStep.constBytes]

theorem stringCell_setString (row : Row) (slot : Nat) (v : Option (List UInt8)) :
    (row.setString slot v).stringCell slot = v := by
  cases v <;> simp [Row.setString, Row.stringCell, Row.cell]

/-- What a step writes is what it makes of its operands. -/
theorem executeStep_value (h : executeStep yearOf row step = .ok row') :
    resultValue yearOf step.op (length step) (literal step)
        ((operands step).map fun cell => cellValue row cell.1 cell.2) =
      .ok (cellValue row' (target step) step.outChunkSlot) := by
  rw [resultValue, target]
  rw [executeStep] at h
  by_cases hop : step.op = .stringPrefixSlice
  · rw [if_pos hop] at h
    cases h
    rw [if_pos hop, if_pos hop, cellValue, stringCell_setString, Option.map_map, operands, length]
    simp only [hop, List.map, operandRow_text]
    rfl
  · rw [if_neg hop] at h
    rw [if_neg hop, if_neg hop, stepInt64_eq hop, cellValue]
    cases hstep : stepInt64 yearOf step row with
    | error e =>
      rw [hstep] at h
      cases h
    | ok v =>
      rw [hstep] at h
      cases h
      rw [register_setInt64]
      rfl

/-- A step leaves the cells of other slots. -/
theorem executeStep_other (h : executeStep yearOf row step = .ok row') {slot : Nat}
    (hslot : slot ≠ step.outChunkSlot) (array : Storage) :
    cellValue row' array slot = cellValue row array slot := by
  rw [executeStep] at h
  by_cases hop : step.op = .stringPrefixSlice
  · rw [if_pos hop] at h
    cases h
    cases (row.stringCell step.inAChunkSlot).map (·.take step.inBChunkSlot) <;>
      cases array <;>
      simp [Row.setString, cellValue, Row.int32Cell, Row.register, Row.stringCell, Row.cell, hslot]
  · rw [if_neg hop] at h
    cases hstep : stepInt64 yearOf step row with
    | error e =>
      rw [hstep] at h
      cases h
    | ok v =>
      rw [hstep] at h
      cases h
      have hsame := sameBut_setInt64 row step.outChunkSlot v
      have hnot : slot ∉ [step.outChunkSlot] := fun hmem => hslot (List.mem_singleton.1 hmem)
      cases array with
      | int32 => rw [cellValue, cellValue, hsame.int32Cell hnot]
      | int64 => rw [cellValue, cellValue, hsame.register hnot]
      | double => rfl
      | string => rw [cellValue, cellValue, hsame.stringCell hnot]

end Step

/-! ## A tape and its terms -/

section Tape

variable {yearOf : Int32 → Int64} {row row' row₀ : Row} {step : ProjectStep} {C : Contents}

/-- The cells of a row hold the values of their terms. -/
def Stands (yearOf : Int32 → Int64) (row₀ : Row) (C : Contents) (row : Row) : Prop :=
  ∀ array slot v, (C array slot).eval yearOf row₀ = .ok v → cellValue row array slot = v

theorem stands_filled (yearOf : Int32 → Int64) (row : Row) : Stands yearOf row filled row := by
  intro array slot v hv
  rw [filled] at hv
  split at hv
  · rw [Term.eval] at hv
    exact Except.ok.inj hv
  · cases hv

/-- The operands of a step, by their terms. -/
theorem evalAll_stands (h : Stands yearOf row₀ C row) : ∀ (cells : List (Storage × Nat)) {vs},
    evalAll yearOf row₀ (cells.map fun cell => C cell.1 cell.2) = .ok vs →
      cells.map (fun cell => cellValue row cell.1 cell.2) = vs
  | [], vs, hvs => Except.ok.inj hvs
  | cell :: cells, vs, hvs => by
    rw [List.map_cons, evalAll] at hvs
    cases hv : (C cell.1 cell.2).eval yearOf row₀ with
    | error e =>
      rw [hv] at hvs
      cases hvs
    | ok v =>
      rw [hv] at hvs
      cases hrest : evalAll yearOf row₀ (cells.map fun cell => C cell.1 cell.2) with
      | error e =>
        rw [hrest] at hvs
        cases hvs
      | ok vs' =>
        rw [hrest] at hvs
        cases hvs
        rw [List.map_cons, h _ _ v hv, evalAll_stands h cells hrest]

/-- **A step leaves the value of its term**, and takes the values of other arrays away. -/
theorem stands_traceStep (h : Stands yearOf row₀ C row) (hout : step.outChunkSlot < 16)
    (hstep : executeStep yearOf row step = .ok row') :
    Stands yearOf row₀ (traceStep C step) row' := by
  intro array slot v hv
  rw [traceStep, Contents.write] at hv
  by_cases hslot : slot = step.outChunkSlot
  · rw [if_pos ⟨hslot, hout⟩] at hv
    by_cases harray : array = target step
    · rw [if_pos harray, Term.eval] at hv
      cases hvs : evalAll yearOf row₀ ((operands step).map fun cell => C cell.1 cell.2) with
      | error e =>
        rw [hvs] at hv
        cases hv
      | ok vs =>
        rw [hvs] at hv
        have hvalue := executeStep_value hstep
        rw [evalAll_stands h _ hvs] at hvalue
        have heq : Except.ok v = Except.ok (cellValue row' (target step) step.outChunkSlot) :=
          hv.symm.trans hvalue
        rw [harray, hslot]
        exact (Except.ok.inj heq).symm
    · rw [if_neg harray] at hv
      cases hv
  · rw [if_neg fun hand => hslot hand.1] at hv
    rw [executeStep_other hstep hslot]
    exact h array slot v hv

/-- **A tape leaves the values of its terms.** -/
theorem stands_execute {steps : List ProjectStep} (h : Stands yearOf row₀ C row)
    (hout : ∀ step ∈ steps, step.outChunkSlot < 16) (hrun : execute yearOf steps row = .ok row') :
    Stands yearOf row₀ (trace steps C) row' := by
  induction steps generalizing C row with
  | nil =>
    cases hrun
    exact h
  | cons step steps ih =>
    obtain ⟨hfirst, hrest⟩ := List.forall_mem_cons.1 hout
    unfold execute at hrun
    rw [List.foldlM_cons] at hrun
    cases hstep : executeStep yearOf row step with
    | error e =>
      rw [hstep] at hrun
      cases hrun
    | ok row₁ =>
      rw [hstep] at hrun
      exact ih (stands_traceStep h hfirst hstep) hrest hrun

end Tape

end ProjectionRegisters
end PgYaap
