import PgYaap.ByteMemory
import PgYaap.FilterProgram
import PgYaap.ProjectionSteps

/-! # The tape of a projection

A projection executes its steps one after the other on a chunk. A step reads up to three slots and
writes one; most of them read and write the `int64` array, some the arrays of dates, integers and
strings. The null flags belong to the number of a slot and not to an array: a result in one array
sets the flag of the slots with that number in all of them. A NULL result sets the flag and leaves
the value that was there.

The steps are executed here on one row. The loops without a test for null flags, for columns that
have none, do the same. -/
namespace PgYaap
namespace ProjectionTape

open FilterProgram (QualOp)

/-! ## Steps -/

/-- `ProjectOp`; the arithmetic of `int64` is that of `ProjectionSteps`, and the six comparisons
with a constant are one operation. -/
inductive ProjectOp
  | numeric (op : ProjectionSteps.ProjectOp)
  | stringPrefixLike
  | numericCaseVarConst
  | extractYearFromDate
  | stringEqVarConst
  | stringNeVarConst
  | numericCaseElseVar
  | boolAndVarVar
  | boolOrVarVar
  | boolNotVar
  | int32ToInt64Var
  | stringPrefixSlice
  | int64VarConst (cmpOp : QualOp)
  deriving DecidableEq, Repr

/-- `ProjectStep`. -/
structure ProjectStep where
  op : ProjectOp
  inAChunkSlot : Nat
  inBChunkSlot : Nat
  outChunkSlot : Nat
  constValue : Int64

/-- The bytes of the constant of a step. -/
def ProjectStep.constBytes (step : ProjectStep) : List UInt8 :=
  ByteMemory.encode 8 step.constValue.toUInt64.toNat

/-- The slot of the ELSE branch, which a step has in its constant. -/
def ProjectStep.elseSlot (step : ProjectStep) : Nat := step.constValue.toUInt64.toNat % 256

/-! ## Rows -/

/-- A row of a chunk. -/
structure Row where
  int32 : Nat → Int32
  int64 : Nat → Int64
  string : Nat → List UInt8
  nulls : Nat → Bool

namespace Row

variable (row : Row)

/-- What a slot of an array holds: nothing, where the flag of the slot is set. -/
def cell {α : Type} (values : Nat → α) (slot : Nat) : Option α :=
  if row.nulls slot then none else some (values slot)

def int32Cell (slot : Nat) : Option Int32 := row.cell row.int32 slot

def register (slot : Nat) : Option Int64 := row.cell row.int64 slot

def stringCell (slot : Nat) : Option (List UInt8) := row.cell row.string slot

/-- A result in the `int64` array. -/
def setInt64 (slot : Nat) : Option Int64 → Row
  | some v => { row with
      int64 := Function.update row.int64 slot v
      nulls := Function.update row.nulls slot false }
  | none => { row with nulls := Function.update row.nulls slot true }

/-- A result in the string array. -/
def setString (slot : Nat) : Option (List UInt8) → Row
  | some v => { row with
      string := Function.update row.string slot v
      nulls := Function.update row.nulls slot false }
  | none => { row with nulls := Function.update row.nulls slot true }

end Row

/-! ## Executing -/

/-- `TrimBpcharLength`. -/
def trimBpchar (bytes : List UInt8) : List UInt8 := bytes.rdropWhile (· = 32)

/-- `STRING_PREFIX_LIKE` on a string. -/
def stringPrefixMatches (step : ProjectStep) (bytes : List UInt8) : Bool :=
  step.inBChunkSlot ≤ bytes.length &&
    bytes.take step.inBChunkSlot == step.constBytes.take step.inBChunkSlot

/-- `STRING_EQ_VAR_CONST` on a string: the highest bit of the length is set for `bpchar`. -/
def stringEquals (step : ProjectStep) (bytes : List UInt8) : Bool :=
  let rhs := step.constBytes.take (step.inBChunkSlot &&& 0x7f)
  if step.inBChunkSlot &&& 0x80 ≠ 0 then trimBpchar bytes == trimBpchar rhs else bytes == rhs

/-- A truth value in a register. -/
def boolInt64 (b : Bool) : Int64 := if b then 1 else 0

/-- The result of a step in the `int64` array. `yearOf` is the year of a date as `j2date` has it. -/
def stepInt64 (yearOf : Int32 → Int64) (step : ProjectStep) (row : Row) :
    Except String (Option Int64) :=
  let a := row.register step.inAChunkSlot
  let b := row.register step.inBChunkSlot
  match step.op with
  | .numeric op => ProjectionSteps.stepResult
      ⟨op, step.inAChunkSlot, step.inBChunkSlot, step.outChunkSlot, step.constValue⟩ row.register
  | .stringPrefixLike =>
    .ok ((row.stringCell step.inAChunkSlot).map fun s => boolInt64 (stringPrefixMatches step s))
  | .numericCaseVarConst =>
    .ok (if (a.any (· ≠ 0)) then b else some step.constValue)
  | .extractYearFromDate => .ok ((row.int32Cell step.inAChunkSlot).map yearOf)
  | .stringEqVarConst =>
    .ok ((row.stringCell step.inAChunkSlot).map fun s => boolInt64 (stringEquals step s))
  | .stringNeVarConst =>
    .ok ((row.stringCell step.inAChunkSlot).map fun s => boolInt64 (!stringEquals step s))
  | .numericCaseElseVar => .ok (if (a.any (· ≠ 0)) then b else row.register step.elseSlot)
  | .boolAndVarVar => .ok (a.bind fun a => b.map fun b => boolInt64 (a ≠ 0 && b ≠ 0))
  | .boolOrVarVar => .ok (a.bind fun a => b.map fun b => boolInt64 (a ≠ 0 || b ≠ 0))
  | .boolNotVar => .ok (a.map fun a => boolInt64 (a = 0))
  | .int32ToInt64Var => .ok ((row.int32Cell step.inAChunkSlot).map Int32.toInt64)
  | .int64VarConst cmpOp =>
    .ok (a.map fun a => boolInt64 (cmpOp.holds (compare a.toInt step.constValue.toInt)))
  | .stringPrefixSlice => .ok none

/-- `ExecuteStep` on one row. -/
def executeStep (yearOf : Int32 → Int64) (row : Row) (step : ProjectStep) : Except String Row :=
  if step.op = .stringPrefixSlice then
    .ok (row.setString step.outChunkSlot
      ((row.stringCell step.inAChunkSlot).map (·.take step.inBChunkSlot)))
  else (stepInt64 yearOf step row).map (row.setInt64 step.outChunkSlot)

/-- The steps of an expression, one after the other. -/
def execute (yearOf : Int32 → Int64) (steps : List ProjectStep) (row : Row) : Except String Row :=
  steps.foldlM (executeStep yearOf) row

/-! ## What a step changes -/

/-- Rows that differ in some slots only, and there in the `int64` values and the flags. -/
structure SameBut (slots : List Nat) (row row' : Row) : Prop where
  int32 : row'.int32 = row.int32
  string : row'.string = row.string
  int64 : ∀ k ∉ slots, row'.int64 k = row.int64 k
  nulls : ∀ k ∉ slots, row'.nulls k = row.nulls k

section Changes

variable {yearOf : Int32 → Int64} {row row' row'' : Row} {slots slots' : List Nat} {k : Nat}
  {step : ProjectStep} {steps steps' : List ProjectStep}

theorem SameBut.refl (slots : List Nat) (row : Row) : SameBut slots row row :=
  ⟨rfl, rfl, fun _ _ => rfl, fun _ _ => rfl⟩

theorem SameBut.trans (h : SameBut slots row row') (h' : SameBut slots' row' row'') :
    SameBut (slots ++ slots') row row'' where
  int32 := h'.int32.trans h.int32
  string := h'.string.trans h.string
  int64 := fun k hk => by
    rw [List.mem_append, not_or] at hk
    exact (h'.int64 k hk.2).trans (h.int64 k hk.1)
  nulls := fun k hk => by
    rw [List.mem_append, not_or] at hk
    exact (h'.nulls k hk.2).trans (h.nulls k hk.1)

theorem SameBut.mono (h : SameBut slots row row') (hsub : slots ⊆ slots') :
    SameBut slots' row row' where
  int32 := h.int32
  string := h.string
  int64 := fun k hk => h.int64 k fun hmem => hk (hsub hmem)
  nulls := fun k hk => h.nulls k fun hmem => hk (hsub hmem)

/-- Slots that are not written are read as before. -/
theorem SameBut.register (h : SameBut slots row row') (hk : k ∉ slots) :
    row'.register k = row.register k := by
  unfold Row.register Row.cell
  rw [h.nulls k hk, h.int64 k hk]

theorem SameBut.int32Cell (h : SameBut slots row row') (hk : k ∉ slots) :
    row'.int32Cell k = row.int32Cell k := by
  unfold Row.int32Cell Row.cell
  rw [h.nulls k hk, h.int32]

theorem SameBut.stringCell (h : SameBut slots row row') (hk : k ∉ slots) :
    row'.stringCell k = row.stringCell k := by
  unfold Row.stringCell Row.cell
  rw [h.nulls k hk, h.string]

theorem sameBut_setInt64 (row : Row) (slot : Nat) (v : Option Int64) :
    SameBut [slot] row (row.setInt64 slot v) := by
  cases v with
  | none =>
    refine ⟨rfl, rfl, fun _ _ => rfl, fun k hk => ?_⟩
    exact Function.update_of_ne (fun h => hk (List.mem_singleton.2 h)) _ _
  | some v =>
    refine ⟨rfl, rfl, fun k hk => ?_, fun k hk => ?_⟩
    · exact Function.update_of_ne (fun h => hk (List.mem_singleton.2 h)) _ _
    · exact Function.update_of_ne (fun h => hk (List.mem_singleton.2 h)) _ _

@[simp] theorem register_setInt64 (row : Row) (slot : Nat) (v : Option Int64) :
    (row.setInt64 slot v).register slot = v := by
  cases v <;> simp [Row.setInt64, Row.register, Row.cell]

theorem execute_append (yearOf : Int32 → Int64) (steps steps' : List ProjectStep) (row : Row) :
    execute yearOf (steps ++ steps') row =
      (execute yearOf steps row).bind (execute yearOf steps') := List.foldlM_append

theorem execute_singleton (yearOf : Int32 → Int64) (step : ProjectStep) (row : Row) :
    execute yearOf [step] row = executeStep yearOf row step := by
  unfold execute
  rw [List.foldlM_cons]
  cases executeStep yearOf row step <;> rfl

/-- A step with a result in the `int64` array. -/
theorem executeStep_eq {v : Option Int64} (hop : step.op ≠ .stringPrefixSlice)
    (h : stepInt64 yearOf step row = .ok v) :
    executeStep yearOf row step = .ok (row.setInt64 step.outChunkSlot v) := by
  unfold executeStep
  rw [if_neg hop, h]
  rfl

end Changes
end ProjectionTape
end PgYaap
