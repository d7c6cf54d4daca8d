import PgYaap.FilterSql
import PgYaap.ProjectionTape

/-! # Conditions and CASE in projections

A program of comparisons, connectives and CASE leaves the value of each of its parts in a register:
a truth value and a null flag. The slots are the program's choice, as long as no step writes a slot
that is still read (`Apart`); the rows are any, with NULL in any columns.

The connectives give NULL for a NULL operand, whatever the other one is. So a register has the truth
value of SQL as long as no operand is NULL where the other one decides (`Undominated`). The negation
and CASE follow SQL: a condition that is NULL is not taken. -/
namespace PgYaap
namespace ProjectionConditions

open ProjectionTape SqlLogic
open FilterProgram (BoolExprType QualOp)

/-! ## Programs -/

/-- The comparisons of strings. -/
inductive StringTest
  | eq
  | ne
  | prefixLike
  deriving DecidableEq, Repr

def StringTest.op : StringTest → ProjectOp
  | .eq => .stringEqVarConst
  | .ne => .stringNeVarConst
  | .prefixLike => .stringPrefixLike

/-- A comparison of a column with a constant. An integer of four bytes is widened first. -/
inductive Test
  | int64 (cmpOp : QualOp) (column : Nat) (value : Int64)
  | int32 (cmpOp : QualOp) (column widened : Nat) (value : Int64)
  | string (test : StringTest) (column len : Nat) (value : Int64)

def Test.steps (out : Nat) : Test → List ProjectStep
  | .int64 cmpOp column value => [⟨.int64VarConst cmpOp, column, 0, out, value⟩]
  | .int32 cmpOp column widened value =>
    [⟨.int32ToInt64Var, column, 0, widened, 0⟩, ⟨.int64VarConst cmpOp, widened, 0, out, value⟩]
  | .string test column len value => [⟨test.op, column, len, out, value⟩]

def Test.column : Test → Nat
  | .int64 _ column _ | .int32 _ column _ _ | .string _ column _ _ => column

/-- What the comparison says of the column of a row: nothing, where it is NULL. -/
def Test.answer (row : Row) : Test → Option Bool
  | .int64 cmpOp column value =>
    (row.register column).map fun v => cmpOp.holds (compare v.toInt value.toInt)
  | .int32 cmpOp column _ value =>
    (row.int32Cell column).map fun v => cmpOp.holds (compare v.toInt value.toInt)
  | .string .eq column len value =>
    (row.stringCell column).map (stringEquals ⟨.stringEqVarConst, column, len, 0, value⟩)
  | .string .ne column len value =>
    (row.stringCell column).map fun s => !stringEquals ⟨.stringNeVarConst, column, len, 0, value⟩ s
  | .string .prefixLike column len value =>
    (row.stringCell column).map (stringPrefixMatches ⟨.stringPrefixLike, column, len, 0, value⟩)

/-- Conditions, with the slots of their registers. -/
inductive Condition
  | test (t : Test) (out : Nat)
  | not (child : Condition) (out : Nat)
  | bool (type : BoolExprType) (lhs rhs : Condition) (out : Nat)

def connective : BoolExprType → ProjectOp
  | .and => .boolAndVarVar
  | .or => .boolOrVarVar

namespace Condition

def slot : Condition → Nat
  | .test _ out | .not _ out | .bool _ _ _ out => out

def steps : Condition → List ProjectStep
  | .test t out => t.steps out
  | .not child out => child.steps ++ [⟨.boolNotVar, child.slot, 0, out, 0⟩]
  | .bool type lhs rhs out =>
    lhs.steps ++ (rhs.steps ++ [⟨connective type, lhs.slot, rhs.slot, out, 0⟩])

/-- The columns that a condition reads. -/
def columns : Condition → List Nat
  | .test t _ => [t.column]
  | .not child _ => child.columns
  | .bool _ lhs rhs _ => lhs.columns ++ rhs.columns

/-- **The value of SQL** on a row. -/
def truth (row : Row) : Condition → Truth
  | .test t _ => (t.answer row).elim .unknown .ofBool
  | .not child _ => (child.truth row).not
  | .bool type lhs rhs _ => type.truth (lhs.truth row) (rhs.truth row)

/-- The conditions in a condition, each with the steps up to its own. -/
def parts : Condition → List (List ProjectStep × Condition)
  | .test t out => [((Condition.test t out).steps, .test t out)]
  | .not child out => child.parts ++ [((child.not out).steps, child.not out)]
  | .bool type lhs rhs out => lhs.parts ++ (rhs.parts.map fun part =>
      (lhs.steps ++ part.1, part.2)) ++ [((bool type lhs rhs out).steps, bool type lhs rhs out)]

end Condition

/-- The slots that steps write. -/
def writes (steps : List ProjectStep) : List Nat := steps.map ProjectStep.outChunkSlot

/-- No step writes a slot that is read. -/
def Untouched (columns : List Nat) (steps : List ProjectStep) : Prop :=
  ∀ k ∈ columns, k ∉ writes steps

namespace Condition

/-- **The registers of a condition are apart**: the second operand neither writes the register of
the first one, nor reads a column that the first one writes. -/
def Apart : Condition → Prop
  | .test _ _ => True
  | .not child _ => child.Apart
  | .bool _ lhs rhs _ => lhs.Apart ∧ rhs.Apart ∧ Untouched rhs.columns lhs.steps ∧
      Untouched [lhs.slot] rhs.steps

end Condition

/-- A step that brings an arm of a CASE to the scale of the result. -/
structure Alignment where
  factor : Int64
  slot : Nat

namespace Alignment

def steps (input : Nat) : Option Alignment → List ProjectStep
  | none => []
  | some a => [⟨.numeric .numericScaleVarConst, input, 0, a.slot, a.factor⟩]

def outSlot (input : Nat) : Option Alignment → Nat
  | none => input
  | some a => a.slot

def value (v : Option Int64) : Option Alignment → Option Int64
  | none => v
  | some a => v.map fun v => if 0 ≤ a.factor then v * a.factor else v / -a.factor

end Alignment

/-- Columns, constants and CASE, nested in any way. -/
inductive Value
  | column (slot : Nat)
  | const (value : Int64) (out : Nat)
  | caseConst (cond : Condition) (thn : Value) (els : Int64) (out : Nat)
  | caseElse (cond : Condition) (thn els : Value) (alignThen alignElse : Option Alignment)
      (out : Nat)

namespace Value

def slot : Value → Nat
  | .column slot => slot
  | .const _ out | .caseConst _ _ _ out | .caseElse _ _ _ _ _ out => out

/-- The step of a CASE. -/
def caseStep (cond : Condition) (thn els : Value) (alignThen alignElse : Option Alignment)
    (out : Nat) : ProjectStep :=
  ⟨.numericCaseElseVar, cond.slot, Alignment.outSlot thn.slot alignThen, out,
    Int64.ofNat (Alignment.outSlot els.slot alignElse)⟩

def steps : Value → List ProjectStep
  | .column _ => []
  | .const value out => [⟨.numeric .constInt64, 0, 0, out, value⟩]
  | .caseConst cond thn els out =>
    cond.steps ++ (thn.steps ++ [⟨.numericCaseVarConst, cond.slot, thn.slot, out, els⟩])
  | .caseElse cond thn els alignThen alignElse out =>
    cond.steps ++ (thn.steps ++ (els.steps ++ (Alignment.steps thn.slot alignThen ++
      (Alignment.steps els.slot alignElse ++ [caseStep cond thn els alignThen alignElse out]))))

def columns : Value → List Nat
  | .column slot => [slot]
  | .const _ _ => []
  | .caseConst cond thn _ _ => cond.columns ++ thn.columns
  | .caseElse cond thn els _ _ _ => cond.columns ++ (thn.columns ++ els.columns)

/-- **The value of SQL** on a row: a CASE takes its first arm where the condition is TRUE. -/
def sql (row : Row) : Value → Option Int64
  | .column slot => row.register slot
  | .const value _ => some value
  | .caseConst cond thn els _ => if cond.truth row = .true then thn.sql row else some els
  | .caseElse cond thn els alignThen alignElse _ =>
    if cond.truth row = .true then Alignment.value (thn.sql row) alignThen
    else Alignment.value (els.sql row) alignElse

/-- The conditions in a value, each with the steps up to its own. -/
def conditions : Value → List (List ProjectStep × Condition)
  | .column _ | .const _ _ => []
  | .caseConst cond thn _ _ =>
    cond.parts ++ thn.conditions.map fun part => (cond.steps ++ part.1, part.2)
  | .caseElse cond thn els _ _ _ =>
    cond.parts ++ (thn.conditions.map fun part => (cond.steps ++ part.1, part.2)) ++
      els.conditions.map fun part => (cond.steps ++ (thn.steps ++ part.1), part.2)

/-- The values in a value, each with the steps up to its own. -/
def parts : Value → List (List ProjectStep × Value)
  | .column slot => [([], .column slot)]
  | .const value out => [((const value out).steps, .const value out)]
  | .caseConst cond thn els out =>
    (thn.parts.map fun part => (cond.steps ++ part.1, part.2)) ++
      [((caseConst cond thn els out).steps, caseConst cond thn els out)]
  | .caseElse cond thn els alignThen alignElse out =>
    (thn.parts.map fun part => (cond.steps ++ part.1, part.2)) ++
      (els.parts.map fun part => (cond.steps ++ (thn.steps ++ part.1), part.2)) ++
      [((caseElse cond thn els alignThen alignElse out).steps,
        caseElse cond thn els alignThen alignElse out)]

/-- **The registers of a value are apart**; a slot is a number of eight bits. -/
def Apart : Value → Prop
  | .column _ | .const _ _ => True
  | .caseConst cond thn _ _ => cond.Apart ∧ thn.Apart ∧ Untouched thn.columns cond.steps ∧
      Untouched [cond.slot] thn.steps
  | .caseElse cond thn els alignThen alignElse _ =>
    cond.Apart ∧ thn.Apart ∧ els.Apart ∧
      Untouched (thn.columns ++ els.columns) cond.steps ∧ Untouched els.columns thn.steps ∧
      Untouched [cond.slot] (thn.steps ++ (els.steps ++ (Alignment.steps thn.slot alignThen ++
        Alignment.steps els.slot alignElse))) ∧
      Untouched [thn.slot] els.steps ∧ Untouched [els.slot] (Alignment.steps thn.slot alignThen) ∧
      Untouched [Alignment.outSlot thn.slot alignThen] (Alignment.steps els.slot alignElse) ∧
      Alignment.outSlot els.slot alignElse < 256

end Value

/-! ## What SQL asks -/

/-- The truth value of a register. -/
def truthOf : Option Int64 → Truth
  | none => .unknown
  | some v => .ofBool (v ≠ 0)

section Sql

variable (yearOf : Int32 → Int64) (row : Row)

/-- **A program follows SQL** on a row: after the steps of each of its conditions the register of
the condition has the truth value of SQL, and after the steps of each of its values, a CASE or an
arm of one, the register of the value has the value of SQL. -/
structure FollowsSql (program : Value) : Prop where
  conditions : ∀ part ∈ program.conditions, ∃ row', execute yearOf part.1 row = .ok row' ∧
    truthOf (row'.register part.2.slot) = part.2.truth row
  values : ∀ part ∈ program.parts, ∃ row', execute yearOf part.1 row = .ok row' ∧
    row'.register part.2.slot = part.2.sql row

/-- One operand is NULL and the other one decides. -/
def Dominated : BoolExprType → Truth → Truth → Prop
  | .and, a, b => a = .unknown ∧ b = .false ∨ a = .false ∧ b = .unknown
  | .or, a, b => a = .unknown ∧ b = .true ∨ a = .true ∧ b = .unknown

/-- **No operand is NULL where the other one decides.** -/
def Condition.Undominated : Condition → Prop
  | .test _ _ => True
  | .not child _ => child.Undominated
  | .bool type lhs rhs _ => lhs.Undominated ∧ rhs.Undominated ∧
      ¬ Dominated type (lhs.truth row) (rhs.truth row)

def Value.Undominated : Value → Prop
  | .column _ | .const _ _ => True
  | .caseConst cond thn _ _ => cond.Undominated row ∧ thn.Undominated
  | .caseElse cond thn els _ _ _ =>
    cond.Undominated row ∧ thn.Undominated ∧ els.Undominated

end Sql

/-! ## What the steps compute -/

/-- The register of a condition, from the columns of the row. -/
def Condition.code (row : Row) : Condition → Option Int64
  | .test t _ => (t.answer row).map boolInt64
  | .not child _ => (child.code row).map fun a => boolInt64 (a = 0)
  | .bool .and lhs rhs _ =>
    (lhs.code row).bind fun a => (rhs.code row).map fun b => boolInt64 (a ≠ 0 && b ≠ 0)
  | .bool .or lhs rhs _ =>
    (lhs.code row).bind fun a => (rhs.code row).map fun b => boolInt64 (a ≠ 0 || b ≠ 0)

/-- The register of a value, from the columns of the row. -/
def Value.code (row : Row) : Value → Option Int64
  | .column slot => row.register slot
  | .const value _ => some value
  | .caseConst cond thn els _ => if (cond.code row).any (· ≠ 0) then thn.code row else some els
  | .caseElse cond thn els alignThen alignElse _ =>
    if (cond.code row).any (· ≠ 0) then Alignment.value (thn.code row) alignThen
    else Alignment.value (els.code row) alignElse

section Run

variable {yearOf : Int32 → Int64} {row row' mid : Row} {steps steps' : List ProjectStep}
  {slots columns : List Nat} {slot slot' : Nat} {v w : Option Int64}

/-- **A run of steps** that leaves a value in a register and touches only what it writes. -/
def Runs (yearOf : Int32 → Int64) (steps : List ProjectStep) (slot : Nat) (row : Row)
    (v : Option Int64) : Prop :=
  ∃ row', execute yearOf steps row = .ok row' ∧ SameBut (writes steps) row row' ∧
    row'.register slot = v

theorem writes_append (steps steps' : List ProjectStep) :
    writes (steps ++ steps') = writes steps ++ writes steps' := List.map_append

/-- One step. -/
theorem runs_step {step : ProjectStep} (hop : step.op ≠ .stringPrefixSlice)
    (h : stepInt64 yearOf step row = .ok v) : Runs yearOf [step] step.outChunkSlot row v :=
  ⟨row.setInt64 step.outChunkSlot v, (execute_singleton _ _ _).trans (executeStep_eq hop h),
    sameBut_setInt64 row _ v, register_setInt64 row _ v⟩

/-- No step. -/
theorem runs_nil (yearOf : Int32 → Int64) (slot : Nat) (row : Row) :
    Runs yearOf [] slot row (row.register slot) := ⟨row, rfl, SameBut.refl _ row, rfl⟩

/-- **One run after the other.** -/
theorem Runs.seq (h : Runs yearOf steps slot row v)
    (h' : ∀ mid, SameBut (writes steps) row mid → mid.register slot = v →
      Runs yearOf steps' slot' mid w) : Runs yearOf (steps ++ steps') slot' row w := by
  obtain ⟨mid, hmid, hsame, hv⟩ := h
  obtain ⟨row', hrow', hsame', hw⟩ := h' mid hsame hv
  refine ⟨row', ?_, ?_, hw⟩
  · rw [execute_append, hmid]
    exact hrow'
  · rw [writes_append]
    exact hsame.trans hsame'

theorem Runs.register (h : Runs yearOf steps slot row v)
    (hok : execute yearOf steps row = .ok row') : row'.register slot = v := by
  obtain ⟨row'', hrow'', -, hv⟩ := h
  rw [← Except.ok.inj (hrow''.symm.trans hok)]
  exact hv

theorem Untouched.mono {columns' : List Nat} (h : Untouched columns steps)
    (hsub : columns' ⊆ columns) : Untouched columns' steps := fun k hk => h k (hsub hk)

/-- Rows that read alike in some columns. -/
def ReadsAlike (columns : List Nat) (row row' : Row) : Prop :=
  ∀ k ∈ columns, row'.register k = row.register k ∧ row'.int32Cell k = row.int32Cell k ∧
    row'.stringCell k = row.stringCell k

theorem ReadsAlike.mono {columns' : List Nat} (h : ReadsAlike columns row row')
    (hsub : columns' ⊆ columns) : ReadsAlike columns' row row' := fun k hk => h k (hsub hk)

/-- Columns that are not written read alike. -/
theorem Untouched.readsAlike (h : Untouched columns steps)
    (hsame : SameBut (writes steps) row row') : ReadsAlike columns row row' :=
  fun k hk => ⟨hsame.register (h k hk), hsame.int32Cell (h k hk), hsame.stringCell (h k hk)⟩

/-! ## Conditions -/

theorem Test.answer_congr {t : Test} (h : ReadsAlike [t.column] row row') :
    t.answer row' = t.answer row := by
  obtain ⟨hregister, hint32, hstring⟩ := h t.column (List.mem_singleton_self _)
  cases t with
  | int64 cmpOp column value => exact congrArg (Option.map _) hregister
  | int32 cmpOp column widened value => exact congrArg (Option.map _) hint32
  | string test column len value => cases test <;> exact congrArg (Option.map _) hstring

theorem map_boolInt64 {α : Type} (x : Option α) (p : α → Bool) :
    (x.map fun a => boolInt64 (p a)) = (x.map p).map boolInt64 := by
  cases x <;> rfl

theorem Test.runs (yearOf : Int32 → Int64) (t : Test) (out : Nat) (row : Row) :
    Runs yearOf (t.steps out) out row ((t.answer row).map boolInt64) := by
  have hstep {step : ProjectStep} {v : Option Int64} (hop : step.op ≠ .stringPrefixSlice)
      (h : stepInt64 yearOf step row = .ok v) : Runs yearOf [step] step.outChunkSlot row v :=
    runs_step hop h
  cases t with
  | int64 cmpOp column value =>
    apply @hstep ⟨.int64VarConst cmpOp, column, 0, out, value⟩ _ nofun
    exact congrArg Except.ok (map_boolInt64 (row.register column) _)
  | int32 cmpOp column widened value =>
    have hwiden : Runs yearOf [⟨.int32ToInt64Var, column, 0, widened, 0⟩] widened row
        ((row.int32Cell column).map Int32.toInt64) := runs_step nofun rfl
    apply hwiden.seq
    intro mid _ hmid
    refine @runs_step _ _ _ ⟨.int64VarConst cmpOp, widened, 0, out, value⟩ nofun ?_
    show Except.ok ((mid.register widened).map _) = Except.ok (Option.map boolInt64
      ((row.int32Cell column).map _))
    rw [hmid, Option.map_map, Option.map_map]
    congr 2
    funext v
    simp
  | string test column len value =>
    cases test with
    | eq =>
      apply @hstep ⟨.stringEqVarConst, column, len, out, value⟩ _ nofun
      exact congrArg Except.ok (map_boolInt64 (row.stringCell column) _)
    | ne =>
      apply @hstep ⟨.stringNeVarConst, column, len, out, value⟩ _ nofun
      exact congrArg Except.ok (map_boolInt64 (row.stringCell column) _)
    | prefixLike =>
      apply @hstep ⟨.stringPrefixLike, column, len, out, value⟩ _ nofun
      exact congrArg Except.ok (map_boolInt64 (row.stringCell column) _)

theorem Condition.code_congr {c : Condition} (h : ReadsAlike c.columns row row') :
    c.code row' = c.code row := by
  induction c with
  | test t out => exact congrArg (Option.map boolInt64) (Test.answer_congr h)
  | not child out ih => exact congrArg (Option.map _) (ih h)
  | bool type lhs rhs out ihl ihr =>
    have hlhs := ihl (h.mono (List.subset_append_left _ _))
    have hrhs := ihr (h.mono (List.subset_append_right _ _))
    cases type with
    | and | or =>
      simp only [Condition.code]
      rw [hlhs, hrhs]

/-- **A condition is computed** from the columns of the row, wherever its registers are apart. -/
theorem Condition.runs (yearOf : Int32 → Int64) {c : Condition} (h : c.Apart) (row : Row) :
    Runs yearOf c.steps c.slot row (c.code row) := by
  induction c generalizing row with
  | test t out => exact t.runs yearOf out row
  | not child out ih =>
    apply (ih h row).seq
    intro mid _ hmid
    refine @runs_step _ _ _ ⟨.boolNotVar, child.slot, 0, out, 0⟩ nofun ?_
    show Except.ok ((mid.register child.slot).map _) = _
    rw [hmid]
    rfl
  | bool type lhs rhs out ihl ihr =>
    obtain ⟨hl, hr, hcolumns, hslot⟩ := h
    apply (ihl hl row).seq
    intro mid hsame hmid
    have hrhs := ihr hr mid
    rw [Condition.code_congr (hcolumns.readsAlike hsame)] at hrhs
    apply hrhs.seq
    intro last hsame' hlast
    have hlhs : last.register lhs.slot = lhs.code row :=
      (hsame'.register (hslot _ (List.mem_singleton_self _))).trans hmid
    refine @runs_step _ _ _ ⟨connective type, lhs.slot, rhs.slot, out, 0⟩ ?_ ?_
    · cases type <;> exact nofun
    · cases type with
      | and | or =>
        show Except.ok ((last.register lhs.slot).bind fun a =>
          (last.register rhs.slot).map fun b => _) = _
        rw [hlhs, hlast]
        rfl

/-- A part reads columns of the whole. -/
theorem Condition.columns_of_part {c : Condition} {part : List ProjectStep × Condition}
    (h : part ∈ c.parts) : part.2.columns ⊆ c.columns := by
  induction c generalizing part with
  | test t out =>
    rw [List.mem_singleton.1 h]
    exact fun _ hk => hk
  | not child out ih =>
    rcases List.mem_append.1 h with h | h
    · exact ih h
    · rw [List.mem_singleton.1 h]
      exact fun _ hk => hk
  | bool type lhs rhs out ihl ihr =>
    rcases List.mem_append.1 h with h | h
    · rcases List.mem_append.1 h with h | h
      · exact List.Subset.trans (ihl h) (List.subset_append_left _ _)
      · obtain ⟨part, hpart, rfl⟩ := List.mem_map.1 h
        have hsub : part.2.columns ⊆ rhs.columns := ihr hpart
        exact List.Subset.trans hsub (List.subset_append_right _ _)
    · rw [List.mem_singleton.1 h]
      exact fun _ hk => hk

/-- **Every part of a condition is computed** by the steps up to its own. -/
theorem Condition.part_runs {c : Condition} (h : c.Apart) {part : List ProjectStep × Condition}
    (hpart : part ∈ c.parts) (row : Row) :
    Runs yearOf part.1 part.2.slot row (part.2.code row) := by
  induction c generalizing part row with
  | test t out =>
    rw [List.mem_singleton.1 hpart]
    exact Condition.runs yearOf h row
  | not child out ih =>
    rcases List.mem_append.1 hpart with hpart | hpart
    · exact ih h hpart row
    · rw [List.mem_singleton.1 hpart]
      exact @Condition.runs yearOf (child.not out) h row
  | bool type lhs rhs out ihl ihr =>
    rcases List.mem_append.1 hpart with hpart | hpart
    · rcases List.mem_append.1 hpart with hpart | hpart
      · exact ihl h.1 hpart row
      · obtain ⟨part, hmem, rfl⟩ := List.mem_map.1 hpart
        apply (Condition.runs yearOf h.1 row).seq
        intro mid hsame _
        have hcolumns := h.2.2.1.mono (Condition.columns_of_part hmem)
        rw [← Condition.code_congr (hcolumns.readsAlike hsame)]
        exact ihr h.2.1 hmem mid
    · rw [List.mem_singleton.1 hpart]
      exact @Condition.runs yearOf (.bool type lhs rhs out) h row

/-! ## Values -/

theorem Value.code_congr {v : Value} (h : ReadsAlike v.columns row row') :
    v.code row' = v.code row := by
  induction v with
  | column slot => exact (h slot (List.mem_singleton_self _)).1
  | const value out => rfl
  | caseConst cond thn els out ih =>
    have hcond := Condition.code_congr (h.mono (List.subset_append_left _ _))
    have hthn := ih (h.mono (List.subset_append_right _ _))
    simp only [Value.code]
    rw [hcond, hthn]
  | caseElse cond thn els alignThen alignElse out iht ihe =>
    have hcond := Condition.code_congr (h.mono (List.subset_append_left _ _))
    have harms := h.mono (List.subset_append_right _ _)
    have hthn := iht (harms.mono (List.subset_append_left _ _))
    have hels := ihe (harms.mono (List.subset_append_right _ _))
    simp only [Value.code]
    rw [hcond, hthn, hels]

theorem Alignment.runs (yearOf : Int32 → Int64) (a : Option Alignment) (input : Nat) (row : Row) :
    Runs yearOf (Alignment.steps input a) (Alignment.outSlot input a) row
      (Alignment.value (row.register input) a) := by
  cases a with
  | none => exact runs_nil yearOf input row
  | some a =>
    exact @runs_step _ _ _ ⟨.numeric .numericScaleVarConst, input, 0, a.slot, a.factor⟩ nofun rfl

theorem Untouched.register {k : Nat} (h : Untouched [k] steps)
    (hsame : SameBut (writes steps) row row') : row'.register k = row.register k :=
  hsame.register (h k (List.mem_singleton_self k))

theorem Untouched.left (h : Untouched columns (steps ++ steps')) : Untouched columns steps :=
  fun k hk hmem => h k hk (by rw [writes_append]; exact List.mem_append_left _ hmem)

theorem Untouched.right (h : Untouched columns (steps ++ steps')) : Untouched columns steps' :=
  fun k hk hmem => h k hk (by rw [writes_append]; exact List.mem_append_right _ hmem)

/-- The step of a CASE reads the slot that its constant names. -/
theorem caseStep_elseSlot {cond : Condition} {thn els : Value}
    {alignThen alignElse : Option Alignment} {out : Nat}
    (h : Alignment.outSlot els.slot alignElse < 256) :
    (Value.caseStep cond thn els alignThen alignElse out).elseSlot =
      Alignment.outSlot els.slot alignElse := by
  show (Int64.ofNat (Alignment.outSlot els.slot alignElse)).toUInt64.toNat % 256 = _
  have hsame : (Int64.ofNat (Alignment.outSlot els.slot alignElse)).toUInt64 =
      UInt64.ofNat (Alignment.outSlot els.slot alignElse) := rfl
  rw [hsame, UInt64.toNat_ofNat', Nat.mod_mod_of_dvd _ (by decide), Nat.mod_eq_of_lt h]

/-- **A value is computed** from the columns of the row, wherever its registers are apart. -/
theorem Value.runs (yearOf : Int32 → Int64) {v : Value} (h : v.Apart) (row : Row) :
    Runs yearOf v.steps v.slot row (v.code row) := by
  induction v generalizing row with
  | column slot => exact runs_nil yearOf slot row
  | const value out =>
    exact @runs_step _ _ _ ⟨.numeric .constInt64, 0, 0, out, value⟩ nofun rfl
  | caseConst cond thn els out ih =>
    obtain ⟨hcond, hthn, hcolumns, hslot⟩ := h
    apply (cond.runs yearOf hcond row).seq
    intro mid hsame hmid
    have hvalue := ih hthn mid
    rw [Value.code_congr (hcolumns.readsAlike hsame)] at hvalue
    apply hvalue.seq
    intro last hsame' hlast
    have hkept : last.register cond.slot = cond.code row :=
      (hslot.register hsame').trans hmid
    refine @runs_step _ _ _ ⟨.numericCaseVarConst, cond.slot, thn.slot, out, els⟩ nofun ?_
    show Except.ok (if (last.register cond.slot).any (· ≠ 0) then last.register thn.slot
      else some els) = _
    rw [hkept, hlast]
    rfl
  | caseElse cond thn els alignThen alignElse out iht ihe =>
    obtain ⟨hcond, hthn, hels, hcolumns, hcolumnsElse, hslot, hthnSlot, helsSlot, halign, hbyte⟩ := h
    apply (cond.runs yearOf hcond row).seq
    intro row1 hsame1 hrow1
    have hvalue := iht hthn row1
    rw [Value.code_congr ((hcolumns.mono (List.subset_append_left _ _)).readsAlike hsame1)] at hvalue
    apply hvalue.seq
    intro row2 hsame2 hrow2
    have helse := ihe hels row2
    rw [Value.code_congr (hcolumnsElse.readsAlike hsame2), Value.code_congr
      ((hcolumns.mono (List.subset_append_right _ _)).readsAlike hsame1)] at helse
    apply helse.seq
    intro row3 hsame3 hrow3
    have hthn3 : row3.register thn.slot = thn.code row :=
      (hthnSlot.register hsame3).trans hrow2
    have hthnAligned := Alignment.runs yearOf alignThen thn.slot row3
    rw [hthn3] at hthnAligned
    apply hthnAligned.seq
    intro row4 hsame4 hrow4
    have hels4 : row4.register els.slot = els.code row :=
      (helsSlot.register hsame4).trans hrow3
    have helsAligned := Alignment.runs yearOf alignElse els.slot row4
    rw [hels4] at helsAligned
    apply helsAligned.seq
    intro row5 hsame5 hrow5
    have hthn5 := (halign.register hsame5).trans hrow4
    have hcond5 : row5.register cond.slot = cond.code row :=
      (hslot.right.right.right.register hsame5).trans
        ((hslot.right.right.left.register hsame4).trans
          ((hslot.right.left.register hsame3).trans
            ((hslot.left.register hsame2).trans hrow1)))
    refine @runs_step _ _ _ (Value.caseStep cond thn els alignThen alignElse out) nofun ?_
    show Except.ok (if (row5.register cond.slot).any (· ≠ 0) then
      row5.register (Alignment.outSlot thn.slot alignThen)
      else row5.register (Value.caseStep cond thn els alignThen alignElse out).elseSlot) = _
    rw [caseStep_elseSlot hbyte, hcond5, hthn5, hrow5]
    rfl

/-- Every condition in a value is computed by the steps up to its own. -/
theorem Value.condition_runs {v : Value} (h : v.Apart) {part : List ProjectStep × Condition}
    (hpart : part ∈ v.conditions) (row : Row) :
    Runs yearOf part.1 part.2.slot row (part.2.code row) ∧ part.2.columns ⊆ v.columns := by
  induction v generalizing part row with
  | column slot => exact absurd hpart List.not_mem_nil
  | const value out => exact absurd hpart List.not_mem_nil
  | caseConst cond thn els out ih =>
    obtain ⟨hcond, hthn, hcolumns, -⟩ := h
    rcases List.mem_append.1 hpart with hpart | hpart
    · exact ⟨Condition.part_runs hcond hpart row, List.Subset.trans
        (Condition.columns_of_part hpart) (List.subset_append_left _ _)⟩
    · obtain ⟨part, hmem, rfl⟩ := List.mem_map.1 hpart
      have hsub := (ih hthn hmem row).2
      refine ⟨?_, List.Subset.trans hsub (List.subset_append_right _ _)⟩
      apply (cond.runs yearOf hcond row).seq
      intro mid hsame _
      rw [← Condition.code_congr ((hcolumns.mono hsub).readsAlike hsame)]
      exact (ih hthn hmem mid).1
  | caseElse cond thn els alignThen alignElse out iht ihe =>
    obtain ⟨hcond, hthn, hels, hcolumns, hcolumnsElse, -⟩ := h
    rcases List.mem_append.1 hpart with hpart | hpart
    · rcases List.mem_append.1 hpart with hpart | hpart
      · exact ⟨Condition.part_runs hcond hpart row, List.Subset.trans
          (Condition.columns_of_part hpart) (List.subset_append_left _ _)⟩
      · obtain ⟨part, hmem, rfl⟩ := List.mem_map.1 hpart
        have hsub := List.Subset.trans (iht hthn hmem row).2
          (List.subset_append_left thn.columns els.columns)
        refine ⟨?_, List.Subset.trans hsub (List.subset_append_right _ _)⟩
        apply (cond.runs yearOf hcond row).seq
        intro mid hsame _
        rw [← Condition.code_congr ((hcolumns.mono hsub).readsAlike hsame)]
        exact (iht hthn hmem mid).1
    · obtain ⟨part, hmem, rfl⟩ := List.mem_map.1 hpart
      have hels' := (ihe hels hmem row).2
      have hsub := List.Subset.trans hels' (List.subset_append_right thn.columns els.columns)
      refine ⟨?_, List.Subset.trans hsub (List.subset_append_right _ _)⟩
      apply (cond.runs yearOf hcond row).seq
      intro mid hsame _
      apply (thn.runs yearOf hthn mid).seq
      intro last hsame' _
      rw [← Condition.code_congr ((hcolumns.mono hsub).readsAlike hsame),
        ← Condition.code_congr ((hcolumnsElse.mono hels').readsAlike hsame')]
      exact (ihe hels hmem last).1

/-- Every value in a value is computed by the steps up to its own. -/
theorem Value.part_runs {v : Value} (h : v.Apart) {part : List ProjectStep × Value}
    (hpart : part ∈ v.parts) (row : Row) :
    Runs yearOf part.1 part.2.slot row (part.2.code row) ∧ part.2.columns ⊆ v.columns := by
  induction v generalizing part row with
  | column slot =>
    rw [List.mem_singleton.1 hpart]
    exact ⟨runs_nil yearOf slot row, fun _ hk => hk⟩
  | const value out =>
    rw [List.mem_singleton.1 hpart]
    exact ⟨(Value.const value out).runs yearOf h row, fun _ hk => hk⟩
  | caseConst cond thn els out ih =>
    rcases List.mem_append.1 hpart with hpart | hpart
    · obtain ⟨hcond, hthn, hcolumns, -⟩ := h
      obtain ⟨part, hmem, rfl⟩ := List.mem_map.1 hpart
      have hsub := (ih hthn hmem row).2
      refine ⟨?_, List.Subset.trans hsub (List.subset_append_right _ _)⟩
      apply (cond.runs yearOf hcond row).seq
      intro mid hsame _
      rw [← Value.code_congr ((hcolumns.mono hsub).readsAlike hsame)]
      exact (ih hthn hmem mid).1
    · rw [List.mem_singleton.1 hpart]
      exact ⟨(Value.caseConst cond thn els out).runs yearOf h row, fun _ hk => hk⟩
  | caseElse cond thn els alignThen alignElse out iht ihe =>
    rcases List.mem_append.1 hpart with hpart | hpart
    · obtain ⟨hcond, hthn, hels, hcolumns, hcolumnsElse, -⟩ := h
      rcases List.mem_append.1 hpart with hpart | hpart
      · obtain ⟨part, hmem, rfl⟩ := List.mem_map.1 hpart
        have hsub := List.Subset.trans (iht hthn hmem row).2
          (List.subset_append_left thn.columns els.columns)
        refine ⟨?_, List.Subset.trans hsub (List.subset_append_right _ _)⟩
        apply (cond.runs yearOf hcond row).seq
        intro mid hsame _
        rw [← Value.code_congr ((hcolumns.mono hsub).readsAlike hsame)]
        exact (iht hthn hmem mid).1
      · obtain ⟨part, hmem, rfl⟩ := List.mem_map.1 hpart
        have hels' := (ihe hels hmem row).2
        have hsub := List.Subset.trans hels' (List.subset_append_right thn.columns els.columns)
        refine ⟨?_, List.Subset.trans hsub (List.subset_append_right _ _)⟩
        apply (cond.runs yearOf hcond row).seq
        intro mid hsame _
        apply (thn.runs yearOf hthn mid).seq
        intro last hsame' _
        rw [← Value.code_congr ((hcolumns.mono hsub).readsAlike hsame),
          ← Value.code_congr ((hcolumnsElse.mono hels').readsAlike hsame')]
        exact (ihe hels hmem last).1
    · rw [List.mem_singleton.1 hpart]
      exact ⟨(Value.caseElse cond thn els alignThen alignElse out).runs yearOf h row,
        fun _ hk => hk⟩

end Run

/-! ## Where the registers are right -/

section Right

variable {row : Row}

@[simp] theorem truthOf_boolInt64 (b : Bool) : truthOf (some (boolInt64 b)) = .ofBool b := by
  cases b <;> rfl

theorem truthOf_eq_true (v : Option Int64) : truthOf v = .true ↔ v.any (· ≠ 0) = true := by
  cases v with
  | none => simp [truthOf]
  | some v => by_cases h : v = 0 <;> simp [truthOf, h, Truth.ofBool]

theorem truthOf_not (v : Option Int64) :
    truthOf (v.map fun a => boolInt64 (a = 0)) = (truthOf v).not := by
  cases v with
  | none => rfl
  | some v => by_cases h : v = 0 <;> simp [truthOf, h, boolInt64, Truth.ofBool, Truth.not]

/-- **A connective is right** exactly where no operand is NULL and the other one decides. -/
theorem truthOf_bool (type : BoolExprType) (lhs rhs : Condition) (out : Nat) :
    truthOf ((Condition.bool type lhs rhs out).code row) =
        type.truth (truthOf (lhs.code row)) (truthOf (rhs.code row)) ↔
      ¬ Dominated type (truthOf (lhs.code row)) (truthOf (rhs.code row)) := by
  have hzero : ∀ v : Int64, v = 0 ∨ v ≠ 0 := fun v => em _
  cases type with
  | and | or =>
    simp only [Condition.code]
    cases lhs.code row with
    | none =>
      cases rhs.code row with
      | none => simp [truthOf, Dominated, BoolExprType.truth, Truth.and, Truth.or]
      | some b =>
        rcases hzero b with h | h <;>
          simp [truthOf, Dominated, BoolExprType.truth, Truth.and, Truth.or, Truth.ofBool, h]
    | some a =>
      cases rhs.code row with
      | none =>
        rcases hzero a with h | h <;>
          simp [truthOf, Dominated, BoolExprType.truth, Truth.and, Truth.or, Truth.ofBool, h]
      | some b =>
        rcases hzero a with h | h <;> rcases hzero b with h' | h' <;>
          simp [truthOf, Dominated, BoolExprType.truth, Truth.and, Truth.or, Truth.ofBool, h, h',
            boolInt64]

theorem Condition.self_part (c : Condition) : (c.steps, c) ∈ c.parts := by
  cases c with
  | test t out => exact List.mem_singleton_self _
  | not child out => exact List.mem_append_right _ (List.mem_singleton_self _)
  | bool type lhs rhs out => exact List.mem_append_right _ (List.mem_singleton_self _)

/-- **The registers of a condition are right**, those of its parts too, exactly where none is
dominated. -/
theorem Condition.right_iff (row : Row) (c : Condition) :
    (∀ part ∈ c.parts, truthOf (part.2.code row) = part.2.truth row) ↔ c.Undominated row := by
  induction c with
  | test t out =>
    refine ⟨fun _ => trivial, fun _ part hpart => ?_⟩
    rw [List.mem_singleton.1 hpart]
    show truthOf ((t.answer row).map boolInt64) = (t.answer row).elim .unknown .ofBool
    cases t.answer row with
    | none => rfl
    | some b => exact truthOf_boolInt64 b
  | not child out ih =>
    show _ ↔ child.Undominated row
    rw [← ih]
    constructor
    · exact fun h part hpart => h part (List.mem_append_left _ hpart)
    · intro h part hpart
      rcases List.mem_append.1 hpart with hpart | hpart
      · exact h part hpart
      · rw [List.mem_singleton.1 hpart]
        show truthOf ((child.code row).map _) = (child.truth row).not
        rw [truthOf_not, h _ child.self_part]
  | bool type lhs rhs out ihl ihr =>
    show _ ↔ lhs.Undominated row ∧ rhs.Undominated row ∧
      ¬ Dominated type (lhs.truth row) (rhs.truth row)
    rw [← ihl, ← ihr]
    constructor
    · intro h
      have hlhs := fun part hpart => h part (List.mem_append_left _ (List.mem_append_left _ hpart))
      have hrhs : ∀ part ∈ rhs.parts, truthOf (part.2.code row) = part.2.truth row :=
        fun part hpart => h (lhs.steps ++ part.1, part.2)
          (List.mem_append_left _ (List.mem_append_right _ (List.mem_map_of_mem hpart)))
      have hwhole := h _ (Condition.bool type lhs rhs out).self_part
      have hl := hlhs _ lhs.self_part
      have hr := hrhs _ rhs.self_part
      refine ⟨hlhs, hrhs, ?_⟩
      rw [← hl, ← hr]
      apply (truthOf_bool type lhs rhs out).1
      rw [hl, hr]
      exact hwhole
    · rintro ⟨hlhs, hrhs, hdominated⟩ part hpart
      rcases List.mem_append.1 hpart with hpart | hpart
      · rcases List.mem_append.1 hpart with hpart | hpart
        · exact hlhs part hpart
        · obtain ⟨part, hmem, rfl⟩ := List.mem_map.1 hpart
          exact hrhs part hmem
      · rw [List.mem_singleton.1 hpart]
        have hl := hlhs _ lhs.self_part
        have hr := hrhs _ rhs.self_part
        rw [← hl, ← hr] at hdominated
        have hwhole := (truthOf_bool type lhs rhs out).2 hdominated
        rw [hl, hr] at hwhole
        exact hwhole

/-- Where no condition is dominated, CASE takes the arm of SQL. -/
theorem Value.code_eq_sql {v : Value} (h : v.Undominated row) : v.code row = v.sql row := by
  have htaken : ∀ {c : Condition}, c.Undominated row →
      ((c.code row).any (· ≠ 0) = true ↔ c.truth row = .true) := by
    intro c hc
    rw [← truthOf_eq_true, (Condition.right_iff row c).2 hc _ c.self_part]
  induction v with
  | column slot => rfl
  | const value out => rfl
  | caseConst cond thn els out ih =>
    simp only [Value.code, Value.sql]
    rw [if_congr (htaken h.1) (ih h.2) rfl]
  | caseElse cond thn els alignThen alignElse out iht ihe =>
    simp only [Value.code, Value.sql]
    rw [iht h.2.1, ihe h.2.2, if_congr (htaken h.1) rfl rfl]

theorem Value.undominated_of_part {v : Value} (h : v.Undominated row)
    {part : List ProjectStep × Value} (hpart : part ∈ v.parts) : part.2.Undominated row := by
  induction v generalizing part with
  | column slot =>
    rw [List.mem_singleton.1 hpart]
    exact h
  | const value out =>
    rw [List.mem_singleton.1 hpart]
    exact h
  | caseConst cond thn els out ih =>
    rcases List.mem_append.1 hpart with hpart | hpart
    · obtain ⟨part, hmem, rfl⟩ := List.mem_map.1 hpart
      show part.2.Undominated row
      exact ih h.2 hmem
    · rw [List.mem_singleton.1 hpart]
      exact h
  | caseElse cond thn els alignThen alignElse out iht ihe =>
    rcases List.mem_append.1 hpart with hpart | hpart
    · rcases List.mem_append.1 hpart with hpart | hpart
      · obtain ⟨part, hmem, rfl⟩ := List.mem_map.1 hpart
        show part.2.Undominated row
        exact iht h.2.1 hmem
      · obtain ⟨part, hmem, rfl⟩ := List.mem_map.1 hpart
        show part.2.Undominated row
        exact ihe h.2.2 hmem
    · rw [List.mem_singleton.1 hpart]
      exact h

/-- The conditions of a value are right exactly where none is dominated. -/
theorem Value.right_iff (row : Row) (v : Value) :
    (∀ part ∈ v.conditions, truthOf (part.2.code row) = part.2.truth row) ↔
      v.Undominated row := by
  have hmap : ∀ (steps : List ProjectStep) (parts : List (List ProjectStep × Condition)),
      (∀ part ∈ parts.map fun part => (steps ++ part.1, part.2),
        truthOf (part.2.code row) = part.2.truth row) ↔
          ∀ part ∈ parts, truthOf (part.2.code row) = part.2.truth row := by
    intro steps parts
    exact List.forall_mem_map
  induction v with
  | column slot => exact ⟨fun _ => trivial, fun _ _ h => absurd h List.not_mem_nil⟩
  | const value out => exact ⟨fun _ => trivial, fun _ _ h => absurd h List.not_mem_nil⟩
  | caseConst cond thn els out ih =>
    show (∀ part ∈ _ ++ _, _) ↔ cond.Undominated row ∧ thn.Undominated row
    rw [List.forall_mem_append, hmap, Condition.right_iff]
    exact and_congr_right fun _ => ih
  | caseElse cond thn els alignThen alignElse out iht ihe =>
    show (∀ part ∈ _ ++ _ ++ _, _) ↔
      cond.Undominated row ∧ thn.Undominated row ∧ els.Undominated row
    have happend : ∀ part : List ProjectStep × Condition,
        (cond.steps ++ (thn.steps ++ part.1), part.2) =
          ((cond.steps ++ thn.steps) ++ part.1, part.2) := fun part => by rw [List.append_assoc]
    rw [List.forall_mem_append, List.forall_mem_append, hmap, Condition.right_iff,
      List.map_congr_left fun part _ => happend part, hmap, and_assoc]
    exact and_congr_right fun _ => and_congr iht ihe

end Right

/-- A program whose registers are apart. -/
structure Program where
  value : Value
  apart : value.Apart

/-- **Programs follow SQL, exactly**: all registers are right, and every CASE takes the right arm,
where no operand of a connective is NULL while the other one decides. -/
theorem projection_follows_sql (yearOf : Int32 → Int64) (program : Program) (row : Row) :
    FollowsSql yearOf row program.value ↔ program.value.Undominated row := by
  constructor
  · intro h
    rw [← Value.right_iff]
    intro part hpart
    obtain ⟨row', hok, hright⟩ := h.conditions part hpart
    rw [← ((Value.condition_runs program.apart hpart row).1).register hok]
    exact hright
  · intro h
    refine ⟨fun part hpart => ?_, fun part hpart => ?_⟩
    · obtain ⟨row', hok, -, hregister⟩ :=
        (@Value.condition_runs yearOf _ program.apart part hpart row).1
      refine ⟨row', hok, ?_⟩
      rw [hregister]
      exact (Value.right_iff row program.value).2 h part hpart
    · obtain ⟨row', hok, -, hregister⟩ :=
        (@Value.part_runs yearOf _ program.apart part hpart row).1
      refine ⟨row', hok, ?_⟩
      rw [hregister]
      exact Value.code_eq_sql (Value.undominated_of_part h hpart)

/-! ## NULL OR TRUE -/

/-- `CASE WHEN a < 0 OR b < 5 THEN c ELSE 0 END` over the columns in the slots 0, 1 and 2. -/
def nullOrTrue : Program where
  value := .caseConst (.bool .or (.test (.int64 .lt 0 0) 3) (.test (.int64 .lt 1 5) 4) 5)
    (.column 2) 0 6
  apart := by
    refine ⟨⟨trivial, trivial, ?_, ?_⟩, trivial, ?_, ?_⟩ <;> intro k hk hmem <;>
      rw [List.mem_singleton.1 hk] at hmem <;> revert hmem <;> decide

/-- The row with `a` NULL, `b = 3` and `c = 7`. -/
def nullThreeSeven : Row where
  int32 := fun _ => 0
  int64 := fun k => if k = 1 then 3 else if k = 2 then 7 else 0
  string := fun _ => []
  nulls := fun k => k = 0

/-- **NULL OR TRUE is not TRUE.** The register of the disjunction is NULL, and the CASE takes its
second arm. -/
theorem not_projection_follows_sql :
    ¬ ∀ (yearOf : Int32 → Int64) (program : Program) (row : Row),
      FollowsSql yearOf row program.value := by
  intro hall
  have hvalues := (hall (fun _ => 0) nullOrTrue nullThreeSeven).values
  obtain ⟨row', hok, hregister⟩ := hvalues (nullOrTrue.value.steps, nullOrTrue.value)
    (List.mem_append_right _ (List.mem_singleton_self _))
  have hcode := (nullOrTrue.value.runs (fun _ => 0) nullOrTrue.apart nullThreeSeven).register hok
  have hdiffer : nullOrTrue.value.code nullThreeSeven ≠ nullOrTrue.value.sql nullThreeSeven := by
    decide
  exact hdiffer (hcode.symm.trans hregister)

end ProjectionConditions
end PgYaap
