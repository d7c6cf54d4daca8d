import PgYaap.ProjectionLowering

/-! # The registers of a lowered projection

What a tape does with the slots is followed with terms for values: a cell of a chunk holds what the
child has put there, the result of a step on the terms it has read, or nothing any more, when another
array got a result in the slot of that number and with it the flag. The lowering is right about the
registers when every result has a slot there is and the terms that the tape leaves in the end are the
expressions of the select list, read off the columns where they lie.

Each result takes a slot of its own, so this holds exactly when there are enough of them, each column
that is computed with lies in the `int64` array, and no column is read behind a result that has the
number of its slot. -/
namespace PgYaap
namespace ProjectionRegisters

open FilterProgram (BoolExprType ColumnDecodeKind Compare)
open ProjectionSteps (ArithOp)
open ProjectionTape ProjectionLowering SqlLogic

/-! ## Terms -/

/-- The arrays of a chunk. -/
inductive Storage
  | int32
  | int64
  | double
  | string
  deriving DecidableEq, Repr

/-- The array that a column lies in. -/
def storageOf : ColumnDecodeKind → Storage
  | .int32Char | .int32Date | .int32Int4 => .int32
  | .int64Int8 | .int64NumericScaled => .int64
  | .doubleFloat8 => .double
  | .stringRef => .string

/-- What a cell can hold. -/
inductive Term
  | cell (array : Storage) (slot : Nat)
  /-- The flag of the slot belongs to another value. -/
  | lost
  | result (op : ProjectOp) (len : Nat) (value : Int64) (operands : List Term)

abbrev Contents := Storage → Nat → Term

/-- A chunk as the child has filled it: it has sixteen slots in each array. -/
def filled : Contents := fun array slot => if slot < 16 then .cell array slot else .lost

/-- A result in an array takes the flag of its slot away from the other arrays. -/
def Contents.write (C : Contents) (array : Storage) (slot : Nat) (t : Term) : Contents :=
  fun array' slot' =>
    if slot' = slot ∧ slot < 16 then if array' = array then t else .lost else C array' slot'

/-- The cells that a step reads. -/
def operands (step : ProjectStep) : List (Storage × Nat) :=
  match step.op with
  | .numeric .constInt64 => []
  | .numeric .numericScaleVarConst | .numeric .numericMulVarConst | .numeric .numericAddVarConst
  | .numeric .numericSubVarConst | .numeric .copyVar | .boolNotVar | .int64VarConst _ =>
    [(.int64, step.inAChunkSlot)]
  | .numeric .numericSubConstVar | .numeric .numericAddConstVar => [(.int64, step.inBChunkSlot)]
  | .numeric .numericMulVarVar | .numeric .numericAddVarVar | .numeric .numericSubVarVar
  | .numeric .numericDivVarVar | .numericCaseVarConst | .boolAndVarVar | .boolOrVarVar =>
    [(.int64, step.inAChunkSlot), (.int64, step.inBChunkSlot)]
  | .numericCaseElseVar =>
    [(.int64, step.inAChunkSlot), (.int64, step.inBChunkSlot), (.int64, step.elseSlot)]
  | .extractYearFromDate | .int32ToInt64Var => [(.int32, step.inAChunkSlot)]
  | .stringPrefixLike | .stringEqVarConst | .stringNeVarConst | .stringPrefixSlice =>
    [(.string, step.inAChunkSlot)]

/-- The length that a step has in the place of an operand. -/
def length (step : ProjectStep) : Nat :=
  match step.op with
  | .stringPrefixLike | .stringEqVarConst | .stringNeVarConst | .stringPrefixSlice =>
    step.inBChunkSlot
  | _ => 0

/-- The constant of a step, where it is no slot. -/
def literal (step : ProjectStep) : Int64 :=
  if step.op = .numericCaseElseVar then 0 else step.constValue

/-- The array a step writes. -/
def target (step : ProjectStep) : Storage :=
  if step.op = .stringPrefixSlice then .string else .int64

def traceStep (C : Contents) (step : ProjectStep) : Contents :=
  C.write (target step) step.outChunkSlot (.result step.op (length step) (literal step)
    ((operands step).map fun cell => C cell.1 cell.2))

/-- What the cells hold after some steps. -/
def trace (steps : List ProjectStep) (C : Contents) : Contents := steps.foldl traceStep C

/-! ## Expressions as terms -/

/-- The cell of a column. -/
def columnTerm (columns : Columns) (col : Nat) : Term :=
  match columns col with
  | some source => .cell (storageOf source.decodeKind) source.chunkSlot
  | none => .lost

/-- A comparison of a column with a constant. -/
def compareTerm (S : ConstantSupport) (columns : Columns) (c : Compare) : Term :=
  match c.left, c.right with
  | .column col, .constant (some text) =>
    match columns col with
    | some source =>
      if source.decodeKind = .stringRef then
        match c.name with
        | .like =>
          let pattern := ((FilterProgram.tryExtractLikePattern text).map Prod.snd).getD []
          .result .stringPrefixLike pattern.length (packBytes pattern) [columnTerm columns col]
        | name => .result ((stringCompareOp name).getD .stringEqVarConst)
          (if source.typeOid = bpcharOid then text.length + 0x80 else text.length)
          (packBytes text) [columnTerm columns col]
      else
        .result (.int64VarConst ((FilterProgram.mapComparisonNameToQualOp c.name).getD .eq)) 0
          ((numericCompareConst S source text).getD 0)
          [if source.decodeKind = .int32Int4 then
            .result .int32ToInt64Var 0 0 [columnTerm columns col] else columnTerm columns col]
    | none => .lost
  | _, _ => .lost

mutual

def conditionTerm (S : ConstantSupport) (columns : Columns) : FilterProgram.Expr → Term
  | .compare c => compareTerm S columns c
  | .not child => .result .boolNotVar 0 0 [conditionTerm S columns child]
  | .bool _ [] => .lost
  | .bool type (child :: children) =>
    childrenTerm S columns type children (conditionTerm S columns child)

def childrenTerm (S : ConstantSupport) (columns : Columns) (type : BoolExprType) :
    List FilterProgram.Expr → Term → Term
  | [], left => left
  | child :: children, left => childrenTerm S columns type children
      (.result (connective type) 0 0 [left, conditionTerm S columns child])

end

/-- The scale of an expression. -/
def scale (columns : Columns) : Expr → Int
  | .column col => ((columns col).map fun source =>
      FilterProgram.columnNumericScale source.toColumnSchema).getD 0
  | .constant value => decimals (value.getD [])
  | .cast child => scale columns child
  | .extract _ _ => 0
  | .binary op _ lhs rhs =>
    match op with
    | .div => ProjectionSteps.divisionScale (lhs.asConst.isSome || rhs.asConst.isSome)
        (scale columns lhs) (scale columns rhs)
    | .mul => scale8 (scale columns lhs + scale columns rhs)
    | .add | .sub => max (scale columns lhs) (scale columns rhs)
  | .case _ thenArm _ elseArm =>
    if elseArm.asConst.isSome then scale columns thenArm
    else max (scale columns thenArm) (scale columns elseArm)

/-- A power of ten. -/
def power (exp : Nat) : Int64 := Int64.ofInt (10 ^ exp)

/-- A value brought to another scale. -/
def alignTerm (t : Term) (fromScale toScale : Int) : Term :=
  if fromScale = toScale then t
  else .result (.numeric .numericScaleVarConst) 0
    (if 0 ≤ toScale - fromScale then power (toScale - fromScale).natAbs
      else -power (toScale - fromScale).natAbs) [t]

/-- The integer of a constant. -/
def constantValue (S : ConstantSupport) (constant : Option Bytes) : Int64 :=
  ((scaleNumericConstantToInt64 S constant).map Prod.snd).getD 0

/-- The integer of a constant at another scale. -/
def alignedValue (S : ConstantSupport) (constant : Option Bytes) (toScale : Int) : Int64 :=
  (ProjectionSteps.rescaleInt64Constant (constantValue S constant) (decimals (constant.getD []))
    toScale).getD 0

/-- An operation on terms. -/
def binaryTerm (S : ConstantSupport) (op : ArithOp) (lhs rhs : Expr) (lhsScale rhsScale : Int)
    (l r : Term) : Term :=
  let outScale := max lhsScale rhsScale
  match op, lhs.asConst, rhs.asConst with
  | .div, lhsConst, rhsConst =>
    .result (.numeric .numericDivVarVar) 0
      (power (ProjectionSteps.divisionScale (lhsConst.isSome || rhsConst.isSome) lhsScale rhsScale +
        rhsScale - lhsScale).toNat) [l, r]
  | .mul, some const, _ => .result (.numeric .numericMulVarConst) 0 (constantValue S const) [r]
  | .mul, none, some const => .result (.numeric .numericMulVarConst) 0 (constantValue S const) [l]
  | .mul, none, none => .result (.numeric .numericMulVarVar) 0 0 [l, r]
  | op, some const, _ =>
    .result (.numeric (if op = .sub then .numericSubConstVar else .numericAddConstVar)) 0
      (alignedValue S const outScale) [r]
  | op, none, some const =>
    .result (.numeric (if op = .sub then .numericSubVarConst else .numericAddVarConst)) 0
      (alignedValue S const outScale) [alignTerm l lhsScale outScale]
  | op, none, none =>
    .result (.numeric (varVarOp op)) 0 0
      [alignTerm l lhsScale outScale, alignTerm r rhsScale outScale]

/-- **An expression as a term** over the cells of its columns. -/
def exprTerm (S : ConstantSupport) (columns : Columns) : Expr → Term
  | .column col => columnTerm columns col
  | .constant value =>
    .result (.numeric .constInt64) 0 (((projectionConstant S value).map Prod.snd).getD 0) []
  | .cast child => exprTerm S columns child
  | .extract _ value => .result .extractYearFromDate 0 0 [exprTerm S columns value]
  | .binary op _ lhs rhs => binaryTerm S op lhs rhs (scale columns lhs) (scale columns rhs)
      (exprTerm S columns lhs) (exprTerm S columns rhs)
  | .case condition thenArm _ elseArm =>
    match elseArm.asConst with
    | some const => .result .numericCaseVarConst 0
        ((scaleConstantToTargetScale S const (scale columns thenArm)).getD 0)
        [conditionTerm S columns condition, exprTerm S columns thenArm]
    | none =>
      let outScale := max (scale columns thenArm) (scale columns elseArm)
      .result .numericCaseElseVar 0 0 [conditionTerm S columns condition,
        alignTerm (exprTerm S columns thenArm) (scale columns thenArm) outScale,
        alignTerm (exprTerm S columns elseArm) (scale columns elseArm) outScale]

/-! ## The slots that are needed -/

/-- A comparison of an integer of four bytes takes two. -/
def compareSlots (columns : Columns) (c : Compare) : Nat :=
  match c.left with
  | .column col => if (columns col).any (·.decodeKind = .int32Int4) then 2 else 1
  | .constant _ => 1

mutual

def conditionSlots (columns : Columns) : FilterProgram.Expr → Nat
  | .compare c => compareSlots columns c
  | .not child => conditionSlots columns child + 1
  | .bool _ [] => 0
  | .bool _ (child :: children) => conditionSlots columns child + childrenSlots columns children

def childrenSlots (columns : Columns) : List FilterProgram.Expr → Nat
  | [] => 0
  | child :: children => conditionSlots columns child + 1 + childrenSlots columns children

end

/-- A rescaling takes one. -/
def alignSlots (fromScale toScale : Int) : Nat := if fromScale = toScale then 0 else 1

/-- **The slots an expression takes.** -/
def exprSlots (columns : Columns) : Expr → Nat
  | .column _ => 0
  | .constant _ => 1
  | .cast child => exprSlots columns child
  | .extract _ _ => 1
  | .binary op _ lhs rhs =>
    let outScale := max (scale columns lhs) (scale columns rhs)
    match op, lhs.asConst, rhs.asConst with
    | .div, _, _ => exprSlots columns lhs + exprSlots columns rhs + 1
    | _, some _, _ => exprSlots columns rhs + 1
    | .mul, none, some _ => exprSlots columns lhs + 1
    | .mul, none, none => exprSlots columns lhs + exprSlots columns rhs + 1
    | _, none, some _ => exprSlots columns lhs + alignSlots (scale columns lhs) outScale + 1
    | _, none, none => exprSlots columns lhs + exprSlots columns rhs +
        alignSlots (scale columns lhs) outScale + alignSlots (scale columns rhs) outScale + 1
  | .case condition thenArm _ elseArm =>
    match elseArm.asConst with
    | some _ => conditionSlots columns condition + exprSlots columns thenArm + 1
    | none =>
      let outScale := max (scale columns thenArm) (scale columns elseArm)
      conditionSlots columns condition + exprSlots columns thenArm + exprSlots columns elseArm +
        alignSlots (scale columns thenArm) outScale + alignSlots (scale columns elseArm) outScale + 1

/-! ## The columns that are read -/

/-- The slot of a column is there, and no result has its number. -/
def Intact (columns : Columns) (written : Set Nat) (col : Nat) : Prop :=
  ∀ source, columns col = some source → source.chunkSlot < 16 ∧ source.chunkSlot ∉ written

/-- The slots behind `next`. -/
def taken (next n : Nat) : Set Nat := Set.Ico next (next + n)

mutual

/-- The columns of a condition are read before their numbers are taken. -/
def ConditionReads (columns : Columns) : FilterProgram.Expr → Nat → Set Nat → Prop
  | .compare c, _, written =>
    match c.left with
    | .column col => Intact columns written col
    | .constant _ => True
  | .not child, next, written => ConditionReads columns child next written
  | .bool _ [], _, _ => True
  | .bool _ (child :: children), next, written =>
    ConditionReads columns child next written ∧
      ChildrenRead columns children (next + conditionSlots columns child)
        (written ∪ taken next (conditionSlots columns child))

def ChildrenRead (columns : Columns) : List FilterProgram.Expr → Nat → Set Nat → Prop
  | [], _, _ => True
  | child :: children, next, written =>
    ConditionReads columns child next written ∧
      ChildrenRead columns children (next + (conditionSlots columns child + 1))
        (written ∪ taken next (conditionSlots columns child + 1))

end

/-- **The columns of an expression** lie in the `int64` array, where it computes with them, and are
read before their numbers are taken. -/
def ExprReads (columns : Columns) : Expr → Nat → Set Nat → Prop
  | .column col, _, written => Intact columns written col ∧
      ∀ source, columns col = some source → storageOf source.decodeKind = .int64
  | .constant _, _, _ => True
  | .cast child, next, written => ExprReads columns child next written
  | .extract _ value, _, written =>
    match value with
    | .column col => Intact columns written col
    | _ => True
  | .binary op _ lhs rhs, next, written =>
    match op, lhs.asConst, rhs.asConst with
    | .div, _, _ | _, none, none => ExprReads columns lhs next written ∧
        ExprReads columns rhs (next + exprSlots columns lhs)
          (written ∪ taken next (exprSlots columns lhs))
    | _, some _, _ => ExprReads columns rhs next written
    | _, none, some _ => ExprReads columns lhs next written
  | .case condition thenArm _ elseArm, next, written =>
    let n := conditionSlots columns condition
    ConditionReads columns condition next written ∧
      ExprReads columns thenArm (next + n) (written ∪ taken next n) ∧
      (elseArm.asConst = none → ExprReads columns elseArm (next + n + exprSlots columns thenArm)
        (written ∪ taken next n ∪ taken (next + n) (exprSlots columns thenArm)))

/-! ## What the steps between two states do -/

section Readings

variable {columns : Columns} {s s' s'' : LowerState} {n n' : Nat}

/-- A chunk in which every cell holds what it held, or no column's value. -/
structure Holds (written : Set Nat) (C : Contents) : Prop where
  intact : ∀ array, ∀ k ∉ written, C array k = filled array k
  noCell : ∀ array, ∀ k ∈ written, ∀ array' k', C array k ≠ .cell array' k'

/-- A slot of the `int64` array that is read later on, the term it should hold and when it does. -/
structure Reading where
  slot : Nat
  term : Term
  right : Set Nat → Prop

/-- The slots below `bound` stay as they are in the `int64` array. -/
structure Later (bound : Nat) (C C' : Contents) : Prop where
  int64 : ∀ k < bound, C' .int64 k = C .int64 k
  cells : ∀ k, C' .int64 k = filled .int64 k ∨ ∀ array' k', C' .int64 k ≠ .cell array' k'

/-- A reading holds what it should, now and later, exactly when it is right. -/
def Reading.At (r : Reading) (written : Set Nat) (bound : Nat) (C : Contents) : Prop :=
  ∀ C', Later bound C C' → (C' .int64 r.slot = r.term ↔ r.right written)

/-- The slots that steps write. -/
structure Emits (s s' : LowerState) (n : Nat) (new : List ProjectStep) : Prop where
  steps : s'.steps = s.steps ++ new
  length : new.length = n
  out : ∀ i step, new[i]? = some step → step.outChunkSlot = (s.nextInt64Slot + i) % 256
  target : ∀ step ∈ new, step.op ≠ .stringPrefixSlice
  next : s'.nextInt64Slot = (s.nextInt64Slot + n) % 256

/-- The columns of the `int64` array lie before the slots that are handed out. -/
def ColumnsBelow (columns : Columns) (next : Nat) : Prop :=
  ∀ col source, columns col = some source → storageOf source.decodeKind = .int64 →
    source.chunkSlot < 16 → source.chunkSlot < next

/-- **What the steps between two states do**: they write `n` slots, one after the other, and where
these are there, what is read afterwards holds what it should exactly when it is right. -/
structure Placed (columns : Columns) (s s' : LowerState) (n : Nat) (readings : List Reading) :
    Prop where
  run : ∃ new, Emits s s' n new ∧ ∀ written C, s.nextInt64Slot + n ≤ 16 →
    ColumnsBelow columns s.nextInt64Slot → Holds written C →
      Holds (written ∪ taken s.nextInt64Slot n) (trace new C) ∧
      Later s.nextInt64Slot C (trace new C) ∧
      ∀ r ∈ readings, r.At written (s.nextInt64Slot + n) (trace new C)

theorem Holds.cells {written : Set Nat} {C : Contents} (h : Holds written C) (k : Nat) :
    C .int64 k = filled .int64 k ∨ ∀ array' k', C .int64 k ≠ .cell array' k' := by
  by_cases hk : k ∈ written
  · exact .inr (h.noCell .int64 k hk)
  · exact .inl (h.intact .int64 k hk)

theorem Later.refl {written : Set Nat} {C : Contents} (h : Holds written C) (bound : Nat) :
    Later bound C C := ⟨fun _ _ => rfl, h.cells⟩

theorem Later.trans {bound bound' : Nat} {C C' C'' : Contents} (h : Later bound C C')
    (h' : Later bound' C' C'') (hle : bound ≤ bound') : Later bound C C'' :=
  ⟨fun k hk => (h'.int64 k (hk.trans_le hle)).trans (h.int64 k hk), h'.cells⟩

theorem trace_append (xs ys : List ProjectStep) (C : Contents) :
    trace (xs ++ ys) C = trace ys (trace xs C) := List.foldl_append

/-- A cell of a column that has been read as it lies. -/
theorem filled_iff {written : Set Nat} {C : Contents} (h : Holds written C) (array : Storage)
    (k : Nat) : C array k = .cell array k ↔ k < 16 ∧ k ∉ written := by
  by_cases hk : k ∈ written
  · exact iff_of_false (h.noCell array k hk array k) fun hand => hand.2 hk
  · rw [h.intact array k hk, filled]
    by_cases hlt : k < 16
    · rw [if_pos hlt]
      exact iff_of_true rfl ⟨hlt, hk⟩
    · rw [if_neg hlt]
      exact iff_of_false nofun fun hand => hlt hand.1

theorem Placed.nil (hs : s.nextInt64Slot < 256) : Placed columns s s 0 [] := by
  refine ⟨[], ⟨(List.append_nil _).symm, rfl, nofun, nofun, (Nat.mod_eq_of_lt hs).symm⟩, ?_⟩
  intro written C _ _ hC
  refine ⟨?_, Later.refl hC _, nofun⟩
  rw [taken, Nat.add_zero, Set.Ico_self, Set.union_empty]
  exact hC

/-- A column that is computed with is read in the `int64` array. -/
theorem Placed.column (hs : s.nextInt64Slot < 256) {col : Nat} {source : SourceColumn}
    (hcol : columns col = some source) :
    Placed columns s s 0 [⟨source.chunkSlot, columnTerm columns col, fun written =>
      ExprReads columns (.column col) 0 written⟩] := by
  have hnil : Placed columns s s 0 [] := Placed.nil hs
  obtain ⟨new, hemits, hrun⟩ := hnil.run
  refine ⟨new, hemits, fun written C hfits hbelow hC => ?_⟩
  obtain ⟨hholds, hlater, -⟩ := hrun written C hfits hbelow hC
  refine ⟨hholds, hlater, fun r hr C' hC' => ?_⟩
  obtain rfl := List.mem_singleton.1 hr
  show C' .int64 source.chunkSlot = columnTerm columns col ↔
    Intact columns written col ∧ ∀ source', columns col = some source' →
      storageOf source'.decodeKind = .int64
  have hterm : columnTerm columns col =
      .cell (storageOf source.decodeKind) source.chunkSlot := by rw [columnTerm, hcol]
  rw [hterm]
  have hright : (Intact columns written col ∧ ∀ source', columns col = some source' →
      storageOf source'.decodeKind = .int64) ↔
        (source.chunkSlot < 16 ∧ source.chunkSlot ∉ written) ∧
          storageOf source.decodeKind = .int64 := by
    constructor
    · exact fun h => ⟨h.1 source hcol, h.2 source hcol⟩
    · rintro ⟨hintact, hstorage⟩
      refine ⟨fun source' h => ?_, fun source' h => ?_⟩
      · cases hcol.symm.trans h
        exact hintact
      · cases hcol.symm.trans h
        exact hstorage
  rw [hright]
  by_cases hstorage : storageOf source.decodeKind = .int64
  · rw [hstorage, and_iff_left rfl]
    by_cases hlt : source.chunkSlot < 16
    · rw [hC'.int64 _ (hbelow col source hcol hstorage hlt), hlater.int64 _
        (hbelow col source hcol hstorage hlt)]
      exact filled_iff hC .int64 source.chunkSlot
    · refine iff_of_false (fun heq => ?_) fun h => hlt h.1
      rcases hC'.cells source.chunkSlot with hcell | hno
      · rw [hcell, filled, if_neg hlt] at heq
        cases heq
      · exact hno _ _ heq
  · refine iff_of_false (fun heq => ?_) fun h => hstorage h.2
    rcases hC'.cells source.chunkSlot with hcell | hno
    · rw [hcell, filled] at heq
      split at heq
      · exact hstorage (Term.cell.inj heq).1.symm
      · cases heq
    · exact hno _ _ heq

theorem taken_union (next n n' : Nat) : taken next n ∪ taken (next + n) n' = taken next (n + n') := by
  rw [taken, taken, taken, Set.Ico_union_Ico_eq_Ico (Nat.le_add_right _ _) (Nat.le_add_right _ _),
    Nat.add_assoc]

theorem Emits.next_eq {new : List ProjectStep} (h : Emits s s' n new)
    (hfits : s.nextInt64Slot + n ≤ 16) : s'.nextInt64Slot = s.nextInt64Slot + n := by
  rw [h.next, Nat.mod_eq_of_lt (by omega)]

theorem Emits.append {new new' : List ProjectStep} (h : Emits s s' n new)
    (h' : Emits s' s'' n' new') : Emits s s'' (n + n') (new ++ new') where
  steps := by rw [h'.steps, h.steps, List.append_assoc]
  length := by rw [List.length_append, h.length, h'.length]
  out := fun i step hi => by
    rcases lt_or_ge i new.length with hlt | hge
    · rw [List.getElem?_append_left hlt] at hi
      exact h.out i step hi
    · rw [List.getElem?_append_right hge] at hi
      have hlen := h.length
      rw [h'.out _ step hi, h.next, Nat.mod_add_mod]
      congr 1
      omega
  target := fun step hstep => (List.mem_append.1 hstep).elim (h.target step) (h'.target step)
  next := by rw [h'.next, h.next, Nat.mod_add_mod, Nat.add_assoc]

/-- What is read later on is read behind later steps, too. -/
theorem Reading.At.mono {r : Reading} {written : Set Nat} {bound bound' : Nat} {C C' : Contents}
    (h : r.At written bound C) (hlater : Later bound C C') (hle : bound ≤ bound') :
    r.At written bound' C' := fun _ hC'' => h _ (hlater.trans hC'' hle)

/-- A reading behind some steps, by what is written before them. -/
def Reading.behind (r : Reading) (next n : Nat) : Reading :=
  ⟨r.slot, r.term, fun written => r.right (written ∪ taken next n)⟩

/-- **Steps behind steps.** -/
theorem Placed.seq {rs rs' : List Reading} (h : Placed columns s s' n rs)
    (h' : Placed columns s' s'' n' rs') :
    Placed columns s s'' (n + n') (rs ++ rs'.map (·.behind s.nextInt64Slot n)) := by
  obtain ⟨new, hemits, hrun⟩ := h.run
  obtain ⟨new', hemits', hrun'⟩ := h'.run
  refine ⟨new ++ new', hemits.append hemits', fun written C hfits hbelow hC => ?_⟩
  have hnext := hemits.next_eq (by omega)
  obtain ⟨hholds, hlater, hreads⟩ := hrun written C (by omega) hbelow hC
  have hbelow' : ColumnsBelow columns s'.nextInt64Slot := by
    intro col source hcol hstorage hlt
    have hk := hbelow col source hcol hstorage hlt
    omega
  obtain ⟨hholds', hlater', hreads'⟩ := hrun' _ _ (by omega) hbelow' hholds
  rw [trace_append]
  refine ⟨?_, hlater.trans hlater' (by omega), fun r hr => ?_⟩
  · rw [hnext, Set.union_assoc, taken_union] at hholds'
    exact hholds'
  · rcases List.mem_append.1 hr with hr | hr
    · exact (hreads r hr).mono (hnext ▸ hlater') (by omega)
    · obtain ⟨r', hr', rfl⟩ := List.mem_map.1 hr
      have hat := hreads' r' hr'
      rw [hnext, Nat.add_assoc] at hat
      exact hat

/-- A result in the `int64` array. -/
theorem holds_write {written : Set Nat} {C : Contents} (h : Holds written C) {k : Nat} {t : Term}
    (hk : k < 16) (ht : ∀ array' k', t ≠ .cell array' k') :
    Holds (written ∪ taken k 1) (C.write .int64 k t) := by
  have htaken : taken k 1 = {k} := by
    ext j
    rw [taken, Set.mem_Ico, Set.mem_singleton_iff]
    omega
  rw [htaken]
  constructor
  · intro array j hj
    have hne : j ≠ k := fun heq => hj (.inr heq)
    rw [Contents.write, if_neg fun hand => hne hand.1]
    exact h.intact array j fun hmem => hj (.inl hmem)
  · intro array i hi array' k'
    rw [Contents.write]
    by_cases heq : i = k
    · rw [if_pos ⟨heq, hk⟩]
      split
      · exact ht array' k'
      · exact nofun
    · rw [if_neg fun hand => heq hand.1]
      exact h.noCell array i (hi.resolve_right heq) array' k'

theorem later_write {written : Set Nat} {C : Contents} (h : Holds written C) {k : Nat} {t : Term}
    (hk : k < 16) (ht : ∀ array' k', t ≠ .cell array' k') : Later k C (C.write .int64 k t) where
  int64 := fun _ hj => if_neg fun hand => hj.ne hand.1
  cells := (holds_write h hk ht).cells

theorem push_emits (hs : s.nextInt64Slot < 256) {op : ProjectOp} (hop : op ≠ .stringPrefixSlice)
    (inA inB : Nat) (c : Int64) :
    Emits s (s.push op inA inB c).2 1 [⟨op, inA, inB, s.nextInt64Slot, c⟩] where
  steps := rfl
  length := rfl
  out := fun i step hi => by
    cases i with
    | zero =>
      cases hi
      exact (Nat.mod_eq_of_lt hs).symm
    | succ i => cases hi
  target := fun step hstep => by
    rw [List.mem_singleton.1 hstep]
    exact hop
  next := rfl

theorem Emits.next_lt {new : List ProjectStep} (h : Emits s s' n new) : s'.nextInt64Slot < 256 := by
  rw [h.next]
  exact Nat.mod_lt _ (by decide)

/-- **A step on what has been read**, with all that can be read afterwards. -/
theorem Placed.push {rs : List Reading} (h : Placed columns s s' n rs) (ops : List Reading)
    (hops : ∀ r ∈ ops, r ∈ rs) {op : ProjectOp} (hop : op ≠ .stringPrefixSlice) (inA inB : Nat)
    (c : Int64)
    (hoperands : ∀ out, operands ⟨op, inA, inB, out, c⟩ = ops.map fun r => (.int64, r.slot)) :
    Placed columns s (s'.push op inA inB c).2 (n + 1)
      (⟨s'.nextInt64Slot, .result op (length ⟨op, inA, inB, 0, c⟩)
        (literal ⟨op, inA, inB, 0, c⟩) (ops.map Reading.term),
        fun written => ∀ r ∈ ops, r.right written⟩ :: rs) := by
  obtain ⟨new, hemits, hrun⟩ := h.run
  refine ⟨_, hemits.append (push_emits hemits.next_lt hop inA inB c), fun written C hfits hbelow hC => ?_⟩
  have hnext := hemits.next_eq (by omega)
  obtain ⟨hholds, hlater, hreads⟩ := hrun written C (by omega) hbelow hC
  have hstep : trace (new ++ [⟨op, inA, inB, s'.nextInt64Slot, c⟩]) C =
      (trace new C).write .int64 s'.nextInt64Slot (.result op (length ⟨op, inA, inB, 0, c⟩)
        (literal ⟨op, inA, inB, 0, c⟩) (ops.map fun r => trace new C .int64 r.slot)) := by
    rw [trace_append]
    show (trace new C).write (target _) _ (.result _ _ _ ((operands _).map _)) = _
    rw [hoperands, List.map_map]
    show (trace new C).write (if op = .stringPrefixSlice then _ else _) _ _ = _
    rw [if_neg hop]
    rfl
  rw [hstep]
  have hlt : s'.nextInt64Slot < 16 := by omega
  have hresult : ∀ array' k', Term.result op (length ⟨op, inA, inB, 0, c⟩)
      (literal ⟨op, inA, inB, 0, c⟩) (ops.map fun r => trace new C .int64 r.slot) ≠
        .cell array' k' := nofun
  have hwrite := later_write hholds hlt hresult
  refine ⟨?_, hlater.trans hwrite (by omega), fun r hr => ?_⟩
  · have hwritten := holds_write hholds hlt hresult
    rw [hnext, Set.union_assoc, taken_union] at hwritten
    rw [hnext]
    exact hwritten
  · rcases List.mem_cons.1 hr with rfl | hr
    · intro C' hC'
      show C' .int64 s'.nextInt64Slot = _ ↔ _
      rw [hC'.int64 _ (by omega), Contents.write, if_pos ⟨rfl, hlt⟩, if_pos rfl, Term.result.injEq,
        List.map_inj_left]
      simp only [true_and]
      exact forall₂_congr fun r hr => hreads r (hops r hr) _ (Later.refl hholds _)
    · exact (hreads r hr).mono (hnext ▸ hwrite) (Nat.le_succ _)

/-- A step on a cell of a column. -/
theorem Placed.readCell (hs : s.nextInt64Slot < 256) {op : ProjectOp} (hop : op ≠ .stringPrefixSlice)
    (inA inB : Nat) (c : Int64) {array : Storage} {k : Nat}
    (hoperands : ∀ out, operands ⟨op, inA, inB, out, c⟩ = [(array, k)]) :
    Placed columns s (s.push op inA inB c).2 1
      [⟨s.nextInt64Slot, .result op (length ⟨op, inA, inB, 0, c⟩) (literal ⟨op, inA, inB, 0, c⟩)
        [.cell array k], fun written => k < 16 ∧ k ∉ written⟩] := by
  refine ⟨_, push_emits hs hop inA inB c, fun written C hfits hbelow hC => ?_⟩
  have hlt : s.nextInt64Slot < 16 := by omega
  have hstep : trace [⟨op, inA, inB, s.nextInt64Slot, c⟩] C =
      C.write .int64 s.nextInt64Slot (.result op (length ⟨op, inA, inB, 0, c⟩)
        (literal ⟨op, inA, inB, 0, c⟩) [C array k]) := by
    show C.write (if op = .stringPrefixSlice then _ else _) _
      (.result _ _ _ ((operands _).map _)) = _
    rw [if_neg hop, hoperands]
    rfl
  have hresult : ∀ array' k', Term.result op (length ⟨op, inA, inB, 0, c⟩)
      (literal ⟨op, inA, inB, 0, c⟩) [C array k] ≠ .cell array' k' := nofun
  rw [hstep]
  refine ⟨holds_write hC hlt hresult, later_write hC hlt hresult, fun r hr C' hC' => ?_⟩
  obtain rfl := List.mem_singleton.1 hr
  show C' .int64 s.nextInt64Slot = _ ↔ _
  rw [hC'.int64 _ (by omega), Contents.write, if_pos ⟨rfl, hlt⟩, if_pos rfl, Term.result.injEq]
  simp only [true_and, List.cons.injEq, and_true]
  exact filled_iff hC array k

/-- What is read, said in another way. -/
theorem Placed.of_readings {rs rs' : List Reading} (h : Placed columns s s' n rs)
    (h' : s.nextInt64Slot + n ≤ 16 → s'.nextInt64Slot = s.nextInt64Slot + n → ∀ r' ∈ rs',
      ∃ r ∈ rs, r.slot = r'.slot ∧ r.term = r'.term ∧
        ∀ written, r.right written ↔ r'.right written) :
    Placed columns s s' n rs' := by
  obtain ⟨new, hemits, hrun⟩ := h.run
  refine ⟨new, hemits, fun written C hfits hbelow hC => ?_⟩
  obtain ⟨hholds, hlater, hreads⟩ := hrun written C hfits hbelow hC
  refine ⟨hholds, hlater, fun r' hr' C' hC' => ?_⟩
  obtain ⟨r, hr, hslot, hterm, hright⟩ := h' hfits (hemits.next_eq hfits) r' hr'
  rw [← hslot, ← hterm, ← hright]
  exact hreads r hr C' hC'

theorem Placed.next_lt {rs : List Reading} (h : Placed columns s s' n rs) :
    s'.nextInt64Slot < 256 := by
  obtain ⟨new, hemits, -⟩ := h.run
  exact hemits.next_lt

/-- **An operand brought to another scale.** -/
theorem Placed.align {rs : List Reading} {r : Reading} {fromScale toScale : Int} {slot : Nat}
    (h : Placed columns s s' n rs) (hr : r ∈ rs)
    (halign : appendScaleProjectStep r.slot fromScale toScale s' = some (slot, s'')) :
    Placed columns s s'' (n + alignSlots fromScale toScale)
      (⟨slot, alignTerm r.term fromScale toScale, r.right⟩ :: rs) := by
  rw [appendScaleProjectStep] at halign
  by_cases heq : fromScale = toScale
  · rw [if_pos heq] at halign
    cases halign
    rw [alignSlots, alignTerm, if_pos heq, if_pos heq]
    exact h.of_readings fun _ _ r' hr' => (List.mem_cons.1 hr').elim
      (fun h => ⟨r, hr, h ▸ ⟨rfl, rfl, fun _ => Iff.rfl⟩⟩)
      fun h => ⟨r', h, rfl, rfl, fun _ => Iff.rfl⟩
  · rw [if_neg heq] at halign
    obtain ⟨factor, hfactor, halign⟩ := Option.bind_eq_some_iff.1 halign
    split at halign
    · cases halign
    · have hpower : factor = power (toScale - fromScale).natAbs := by
        rw [ProjectionSteps.pow10Int64] at hfactor
        split at hfactor
        · cases hfactor
        · exact (Option.some.inj hfactor).symm
      cases halign
      rw [alignSlots, alignTerm, if_neg heq, if_neg heq, ← hpower]
      have hop : ProjectOp.numeric .numericScaleVarConst ≠ .stringPrefixSlice := by decide
      have hpush := h.push [r] (List.forall_mem_singleton.2 hr) hop r.slot 0
        (if 0 ≤ toScale - fromScale then factor else -factor) fun out => rfl
      refine hpush.of_readings fun _ _ r' hr' => ?_
      rcases List.mem_cons.1 hr' with rfl | hr'
      · refine ⟨_, List.mem_cons_self, rfl, rfl, fun written => ?_⟩
        exact List.forall_mem_singleton
      · exact ⟨r', List.mem_cons_of_mem _ hr', rfl, rfl, fun _ => Iff.rfl⟩

end Readings

/-! ## Comparisons and conditions -/

section Conditions

variable {S : ConstantSupport} {columns : Columns} {s s' : LowerState}

theorem intact_iff {col : Nat} {source : SourceColumn} (hcol : columns col = some source)
    (written : Set Nat) : source.chunkSlot < 16 ∧ source.chunkSlot ∉ written ↔
      Intact columns written col := by
  constructor
  · intro h source' hcol'
    cases hcol.symm.trans hcol'
    exact h
  · exact fun h => h source hcol

/-- A comparison with one step on the cell of a column. -/
theorem placed_readColumn (hs : s.nextInt64Slot < 256) {op : ProjectOp}
    (hop : op ≠ .stringPrefixSlice) (inB : Nat) (c : Int64) {col : Nat} {source : SourceColumn}
    (hcol : columns col = some source)
    (hoperands : ∀ out, operands ⟨op, source.chunkSlot, inB, out, c⟩ =
      [(storageOf source.decodeKind, source.chunkSlot)]) :
    Placed columns s (s.push op source.chunkSlot inB c).2 1
      [⟨s.nextInt64Slot, .result op (length ⟨op, source.chunkSlot, inB, 0, c⟩)
        (literal ⟨op, source.chunkSlot, inB, 0, c⟩) [columnTerm columns col],
        fun written => Intact columns written col⟩] := by
  refine (Placed.readCell hs hop source.chunkSlot inB c hoperands).of_readings fun _ _ r' hr' => ?_
  obtain rfl := List.mem_singleton.1 hr'
  refine ⟨_, List.mem_singleton_self _, rfl, ?_, fun written => intact_iff hcol written⟩
  rw [columnTerm, hcol]

theorem placed_stringLike {c : Compare} {slot : Nat} (hs : s.nextInt64Slot < 256)
    (h : lowerProjectionStringLike columns c s = some (slot, s')) :
    Placed columns s s' (compareSlots columns c)
      [⟨slot, compareTerm S columns c, ConditionReads columns (.compare c) s.nextInt64Slot⟩] := by
  obtain ⟨name, left, right⟩ := c
  cases name with
  | like =>
    cases left with
    | column col =>
      cases right with
      | constant value =>
        obtain ⟨source, hcol, hvalue⟩ := Option.bind_eq_some_iff.1 h
        obtain ⟨text, rfl, hmatch⟩ := Option.bind_eq_some_iff.1 hvalue
        obtain ⟨⟨isPrefix, pattern⟩, hpattern, hstep⟩ := Option.bind_eq_some_iff.1 hmatch
        dsimp only at hstep
        split at hstep
        · cases hstep
        · next hrefused =>
          simp only [Bool.or_eq_true, decide_eq_true_eq, not_or, not_not] at hrefused
          have hkind := hrefused.1.1.1
          cases hstep
          have hslots : compareSlots columns ⟨.like, .column col, .constant (some text)⟩ = 1 := by
            simp [compareSlots, hcol, hkind]
          have hterm : compareTerm S columns ⟨.like, .column col, .constant (some text)⟩ =
              .result .stringPrefixLike pattern.length (packBytes pattern)
                [columnTerm columns col] := by
            simp [compareTerm, hcol, hkind, hpattern]
          rw [hslots, hterm]
          have hop : ProjectOp.stringPrefixLike ≠ .stringPrefixSlice := by decide
          exact placed_readColumn hs hop pattern.length (packBytes pattern) hcol fun out => by
            rw [hkind]
            rfl
      | column _ => cases h
    | constant _ => cases h
  | _ => cases h

theorem stringCompareOp_spec {name : FilterProgram.CompareName} {op : ProjectOp}
    (h : stringCompareOp name = some op) :
    name ≠ .like ∧ (op = .stringEqVarConst ∨ op = .stringNeVarConst) := by
  cases name <;> cases h <;> decide

theorem placed_stringCompare {c : Compare} {slot : Nat} (hs : s.nextInt64Slot < 256)
    (h : lowerProjectionStringCompare columns c s = some (slot, s')) :
    Placed columns s s' (compareSlots columns c)
      [⟨slot, compareTerm S columns c, ConditionReads columns (.compare c) s.nextInt64Slot⟩] := by
  obtain ⟨name, left, right⟩ := c
  cases left with
  | column col =>
    cases right with
    | constant value =>
      obtain ⟨source, hcol, hvalue⟩ := Option.bind_eq_some_iff.1 h
      obtain ⟨text, rfl, hcompare⟩ := Option.bind_eq_some_iff.1 hvalue
      obtain ⟨op, hname, hstep⟩ := Option.bind_eq_some_iff.1 hcompare
      obtain ⟨hlike, hop⟩ := stringCompareOp_spec hname
      dsimp only at hstep
      split at hstep
      · cases hstep
      · next hrefused =>
        simp only [Bool.or_eq_true, decide_eq_true_eq, not_or, not_not] at hrefused
        have hkind := hrefused.1.1
        cases hstep
        have hslots : compareSlots columns ⟨name, .column col, .constant (some text)⟩ = 1 := by
          simp [compareSlots, hcol, hkind]
        have hterm : compareTerm S columns ⟨name, .column col, .constant (some text)⟩ =
            .result op (if source.typeOid = bpcharOid then text.length + 0x80 else text.length)
              (packBytes text) [columnTerm columns col] := by
          cases name <;> simp_all [compareTerm]
        rw [hslots, hterm]
        rcases hop with rfl | rfl
        · exact placed_readColumn hs (by decide) _ (packBytes text) hcol fun out => by
            rw [hkind]
            rfl
        · exact placed_readColumn hs (by decide) _ (packBytes text) hcol fun out => by
            rw [hkind]
            rfl
    | column _ => cases h
  | constant _ => cases h

/-- A comparison of numbers is made on a column with a number. -/
theorem numericCompareConst_kind {source : SourceColumn} {text : Bytes} {value : Int64}
    (h : numericCompareConst S source text = some value) :
    source.decodeKind = .int64NumericScaled ∨ source.decodeKind = .int32Int4 ∨
      source.decodeKind = .int64Int8 := by
  unfold numericCompareConst at h
  split at h <;> simp_all

theorem placed_numericCompare {c : Compare} {slot : Nat} (hs : s.nextInt64Slot < 256)
    (h : lowerProjectionNumericCompare S columns c s = some (slot, s')) :
    Placed columns s s' (compareSlots columns c)
      [⟨slot, compareTerm S columns c, ConditionReads columns (.compare c) s.nextInt64Slot⟩] := by
  obtain ⟨name, left, right⟩ := c
  cases left with
  | column col =>
    cases right with
    | constant value =>
      rw [lowerProjectionNumericCompare] at h
      dsimp only at h
      split at h
      · cases h
      · obtain ⟨cmpOp, hname, hvalue⟩ := Option.bind_eq_some_iff.1 h
        obtain ⟨text, rfl, hcolumn⟩ := Option.bind_eq_some_iff.1 hvalue
        obtain ⟨source, hcol, hcompare⟩ := Option.bind_eq_some_iff.1 hcolumn
        obtain ⟨constValue, hconst, hstep⟩ := Option.bind_eq_some_iff.1 hcompare
        have hop : ProjectOp.int64VarConst cmpOp ≠ .stringPrefixSlice := nofun
        have hkind := numericCompareConst_kind hconst
        have hstring : source.decodeKind ≠ .stringRef := by
          rcases hkind with hkind | hkind | hkind <;> rw [hkind] <;> decide
        have hterm : compareTerm S columns ⟨name, .column col, .constant (some text)⟩ =
            .result (.int64VarConst cmpOp) 0 constValue
              [if source.decodeKind = .int32Int4 then
                .result .int32ToInt64Var 0 0 [columnTerm columns col]
                else columnTerm columns col] := by
          simp [compareTerm, hcol, hstring, hname, hconst]
        by_cases hint4 : source.decodeKind = .int32Int4
        · rw [if_pos hint4] at hstep hterm
          cases hstep
          have hslots : compareSlots columns ⟨name, .column col, .constant (some text)⟩ = 2 := by
            simp [compareSlots, hcol, hint4]
          rw [hslots, hterm]
          have hwiden : ProjectOp.int32ToInt64Var ≠ .stringPrefixSlice := by decide
          have hread := placed_readColumn hs hwiden 0 0 hcol fun out => by
            rw [hint4]
            rfl
          refine (hread.push _ (fun r hr => hr) hop s.nextInt64Slot 0 constValue
            fun out => rfl).of_readings fun _ _ r' hr' => ?_
          obtain rfl := List.mem_singleton.1 hr'
          refine ⟨_, List.mem_cons_self, rfl, rfl, fun written => ?_⟩
          exact List.forall_mem_singleton
        · rw [if_neg hint4] at hstep hterm
          cases hstep
          have hint64 : storageOf source.decodeKind = .int64 := by
            rcases hkind with hkind | hkind | hkind
            · rw [hkind]
              rfl
            · exact absurd hkind hint4
            · rw [hkind]
              rfl
          have hslots : compareSlots columns ⟨name, .column col, .constant (some text)⟩ = 1 := by
            simp [compareSlots, hcol, hint4]
          rw [hslots, hterm]
          exact placed_readColumn hs hop 0 constValue hcol fun out => by
            rw [hint64]
            rfl
    | column _ => cases h
  | constant _ => cases h

/-- **A comparison** reads its column. -/
theorem placed_compare {c : Compare} {slot : Nat} (hs : s.nextInt64Slot < 256)
    (h : lowerProjectionCompare S columns c s = some (slot, s')) :
    Placed columns s s' (compareSlots columns c)
      [⟨slot, compareTerm S columns c, ConditionReads columns (.compare c) s.nextInt64Slot⟩] := by
  rcases (Option.orElse_eq_some ..).1 h with h | ⟨-, h⟩
  · rcases (Option.orElse_eq_some ..).1 h with h | ⟨-, h⟩
    · exact placed_stringLike hs h
    · exact placed_stringCompare hs h
  · exact placed_numericCompare hs h

mutual

/-- **A condition** reads its columns before their numbers are taken. -/
theorem placed_condition : ∀ (e : FilterProgram.Expr) {s s' : LowerState} {slot : Nat},
    s.nextInt64Slot < 256 → lowerOptimizerBoolExpr S columns e s = some (slot, s') →
      Placed columns s s' (conditionSlots columns e)
        [⟨slot, conditionTerm S columns e, ConditionReads columns e s.nextInt64Slot⟩]
  | .compare c, s, s', slot, hs, h => by
    rw [lowerOptimizerBoolExpr] at h
    rw [conditionSlots, conditionTerm]
    exact placed_compare hs h
  | .not child, s, s', slot, hs, h => by
    rw [lowerOptimizerBoolExpr] at h
    split at h
    · cases h
    · obtain ⟨⟨childSlot, s₁⟩, hchild, hpush⟩ := Option.map_eq_some_iff.1 h
      cases hpush
      have hop : ProjectOp.boolNotVar ≠ .stringPrefixSlice := by decide
      rw [conditionSlots, conditionTerm]
      refine ((placed_condition child hs hchild).push _ (fun r hr => hr) hop childSlot 0 0
        fun out => rfl).of_readings fun _ _ r' hr' => ?_
      obtain rfl := List.mem_singleton.1 hr'
      refine ⟨_, List.mem_cons_self, rfl, rfl, fun written => ?_⟩
      show _ ↔ ConditionReads columns (.not child) s.nextInt64Slot written
      rw [ConditionReads]
      exact List.forall_mem_singleton
  | .bool _ [], s, s', slot, hs, h => by
    rw [lowerOptimizerBoolExpr] at h
    cases h
  | .bool type (child :: children), s, s', slot, hs, h => by
    rw [lowerOptimizerBoolExpr] at h
    obtain ⟨⟨leftSlot, s₁⟩, hchild, hrest⟩ := Option.bind_eq_some_iff.1 h
    rw [conditionSlots, conditionTerm]
    refine (placed_children children (placed_condition child hs hchild) hrest).of_readings
      fun _ _ r' hr' => ?_
    obtain rfl := List.mem_singleton.1 hr'
    refine ⟨_, List.mem_singleton_self _, rfl, rfl, fun written => ?_⟩
    show _ ↔ ConditionReads columns (.bool type (child :: children)) s.nextInt64Slot written
    rw [ConditionReads]

/-- The children from the second on, behind the first ones. -/
theorem placed_children : ∀ (children : List FilterProgram.Expr) {type : BoolExprType}
    {s₀ s s' : LowerState} {n leftSlot slot : Nat} {left : Term} {right : Set Nat → Prop},
    Placed columns s₀ s n [⟨leftSlot, left, right⟩] →
      lowerBoolChildren S columns type children leftSlot s = some (slot, s') →
        Placed columns s₀ s' (n + childrenSlots columns children)
          [⟨slot, childrenTerm S columns type children left, fun written => right written ∧
            ChildrenRead columns children (s₀.nextInt64Slot + n)
              (written ∪ taken s₀.nextInt64Slot n)⟩]
  | [], type, s₀, s, s', n, leftSlot, slot, left, right, hleft, h => by
    rw [lowerBoolChildren] at h
    cases h
    rw [childrenSlots, childrenTerm]
    refine hleft.of_readings fun _ _ r' hr' => ?_
    obtain rfl := List.mem_singleton.1 hr'
    refine ⟨_, List.mem_singleton_self _, rfl, rfl, fun written => ?_⟩
    show right written ↔ right written ∧ ChildrenRead columns [] _ _
    rw [ChildrenRead, and_true]
  | child :: children, type, s₀, s, s', n, leftSlot, slot, left, right, hleft, h => by
    rw [lowerBoolChildren] at h
    split at h
    · cases h
    · obtain ⟨⟨rightSlot, s₁⟩, hchild, hrest⟩ := Option.bind_eq_some_iff.1 h
      have hop : connective type ≠ .stringPrefixSlice := by cases type <;> decide
      have hboth := (hleft.seq (placed_condition child hleft.next_lt hchild)).push _
        (fun r hr => hr) hop leftSlot rightSlot 0 fun out => by cases type <;> rfl
      have hdata : length ⟨connective type, leftSlot, rightSlot, 0, 0⟩ = 0 ∧
          literal ⟨connective type, leftSlot, rightSlot, 0, 0⟩ = 0 := by
        cases type <;> exact ⟨rfl, rfl⟩
      have hone : Placed columns s₀ (s₁.push (connective type) leftSlot rightSlot 0).2
          (n + (conditionSlots columns child + 1)) [⟨s₁.nextInt64Slot,
            .result (connective type) 0 0 [left, conditionTerm S columns child], fun written =>
              right written ∧ ConditionReads columns child (s₀.nextInt64Slot + n)
                (written ∪ taken s₀.nextInt64Slot n)⟩] := by
        rw [← Nat.add_assoc]
        refine hboth.of_readings fun hfits _ r' hr' => ?_
        obtain rfl := List.mem_singleton.1 hr'
        refine ⟨_, List.mem_cons_self, rfl, ?_, fun written => ?_⟩
        · rw [hdata.1, hdata.2]
          rfl
        · obtain ⟨new, hemits, -⟩ := hleft.run
          have hnext := hemits.next_eq (by omega)
          rw [← hnext]
          show (∀ r ∈ [(_ : Reading), (_ : Reading)], r.right written) ↔ _
          rw [List.forall_mem_cons, List.forall_mem_singleton]
          rfl
      rw [childrenSlots, childrenTerm, ← Nat.add_assoc n]
      refine (placed_children children hone hrest).of_readings fun _ _ r' hr' => ?_
      obtain rfl := List.mem_singleton.1 hr'
      refine ⟨_, List.mem_singleton_self _, rfl, rfl, fun written => ?_⟩
      show (right written ∧ _) ∧ _ ↔ right written ∧ ChildrenRead columns (child :: children) _ _
      rw [ChildrenRead, and_assoc, Set.union_assoc, taken_union, ← Nat.add_assoc s₀.nextInt64Slot]

end

end Conditions

/-! ## Expressions -/

section Expressions

variable {S : ConstantSupport} {columns : Columns} {s s' s'' : LowerState} {n n' : Nat}

theorem pushChecked_spec {op : ProjectOp} {inA inB slot : Nat} {c : Int64} {outScale outScale' : Int}
    (h : pushChecked s op inA inB c outScale = some (outScale', slot, s')) :
    outScale' = outScale ∧ s.nextInt64Slot = slot ∧ (s.push op inA inB c).2 = s' := by
  rw [pushChecked] at h
  split at h
  · cases h
  · cases h
    exact ⟨rfl, rfl, rfl⟩

/-- The column that an expression is but for casts. -/
def asColumn : Expr → Option Nat
  | .column col => some col
  | .cast child => asColumn child
  | _ => none

/-- What a lowered expression leaves: its slot holds its term exactly when its columns are read
where they lie. -/
structure LoweredExpr (S : ConstantSupport) (columns : Columns) (e : Expr) (s : LowerState)
    (outScale : Int) (slot : Nat) (s' : LowerState) : Prop where
  scale_eq : outScale = scale columns e
  slot_lt : slot < 256
  last : asColumn e = none → s'.nextInt64Slot = (slot + 1) % 256
  placed : Placed columns s s' (exprSlots columns e)
    [⟨slot, exprTerm S columns e, ExprReads columns e s.nextInt64Slot⟩]

/-- A step on one operand. -/
theorem Placed.one {r : Reading} {op : ProjectOp} (h : Placed columns s s' n [r])
    (hop : op ≠ .stringPrefixSlice) (inA inB : Nat) (c : Int64)
    (hoperands : ∀ out, operands ⟨op, inA, inB, out, c⟩ = [(.int64, r.slot)]) :
    Placed columns s (s'.push op inA inB c).2 (n + 1)
      [⟨s'.nextInt64Slot, .result op (length ⟨op, inA, inB, 0, c⟩)
        (literal ⟨op, inA, inB, 0, c⟩) [r.term], r.right⟩] := by
  refine (h.push _ (fun r hr => hr) hop inA inB c hoperands).of_readings fun _ _ r' hr' => ?_
  obtain rfl := List.mem_singleton.1 hr'
  exact ⟨_, List.mem_cons_self, rfl, rfl, fun written => List.forall_mem_singleton⟩

/-- **Two operands, one behind the other.** -/
theorem LoweredExpr.pair {lhs rhs : Expr} {lhsScale rhsScale : Int} {lhsSlot rhsSlot : Nat}
    (hl : LoweredExpr S columns lhs s lhsScale lhsSlot s')
    (hr : LoweredExpr S columns rhs s' rhsScale rhsSlot s'') :
    Placed columns s s'' (exprSlots columns lhs + exprSlots columns rhs)
      [⟨lhsSlot, exprTerm S columns lhs, ExprReads columns lhs s.nextInt64Slot⟩,
        ⟨rhsSlot, exprTerm S columns rhs, fun written =>
          ExprReads columns rhs (s.nextInt64Slot + exprSlots columns lhs)
            (written ∪ taken s.nextInt64Slot (exprSlots columns lhs))⟩] := by
  refine (hl.placed.seq hr.placed).of_readings fun hfits _ r' hr' => ?_
  obtain ⟨new, hemits, -⟩ := hl.placed.run
  have hnext := hemits.next_eq (by omega)
  rcases List.mem_cons.1 hr' with rfl | hr'
  · exact ⟨_, List.mem_cons_self, rfl, rfl, fun _ => Iff.rfl⟩
  · obtain rfl := List.mem_singleton.1 hr'
    refine ⟨_, List.mem_cons_of_mem _ List.mem_cons_self, rfl, rfl, fun written => ?_⟩
    rw [← hnext]
    rfl

/-- A step on two operands. -/
theorem Placed.two {rs : List Reading} {r r' : Reading} {op : ProjectOp}
    (h : Placed columns s s' n rs) (hr : r ∈ rs) (hr' : r' ∈ rs) (hop : op ≠ .stringPrefixSlice)
    (c : Int64) (hoperands : ∀ out, operands ⟨op, r.slot, r'.slot, out, c⟩ =
      [(.int64, r.slot), (.int64, r'.slot)]) :
    Placed columns s (s'.push op r.slot r'.slot c).2 (n + 1)
      [⟨s'.nextInt64Slot, .result op (length ⟨op, r.slot, r'.slot, 0, c⟩)
        (literal ⟨op, r.slot, r'.slot, 0, c⟩) [r.term, r'.term],
        fun written => r.right written ∧ r'.right written⟩] := by
  have hmem : ∀ x ∈ [r, r'], x ∈ rs := by
    intro x hx
    rcases List.mem_cons.1 hx with rfl | hx
    · exact hr
    · exact List.mem_singleton.1 hx ▸ hr'
  refine (h.push [r, r'] hmem hop r.slot r'.slot c hoperands).of_readings fun _ _ x hx => ?_
  obtain rfl := List.mem_singleton.1 hx
  refine ⟨_, List.mem_cons_self, rfl, rfl, fun written => ?_⟩
  show (∀ x ∈ [r, r'], x.right written) ↔ _
  rw [List.forall_mem_cons, List.forall_mem_singleton]

/-- A step on three operands. -/
theorem Placed.three {rs : List Reading} {r r' r'' : Reading} {op : ProjectOp}
    (h : Placed columns s s' n rs) (hr : r ∈ rs) (hr' : r' ∈ rs) (hr'' : r'' ∈ rs)
    (hop : op ≠ .stringPrefixSlice) (inA inB : Nat) (c : Int64)
    (hoperands : ∀ out, operands ⟨op, inA, inB, out, c⟩ =
      [(.int64, r.slot), (.int64, r'.slot), (.int64, r''.slot)]) :
    Placed columns s (s'.push op inA inB c).2 (n + 1)
      [⟨s'.nextInt64Slot, .result op (length ⟨op, inA, inB, 0, c⟩)
        (literal ⟨op, inA, inB, 0, c⟩) [r.term, r'.term, r''.term],
        fun written => r.right written ∧ r'.right written ∧ r''.right written⟩] := by
  have hmem : ∀ x ∈ [r, r', r''], x ∈ rs := by
    intro x hx
    rcases List.mem_cons.1 hx with rfl | hx
    · exact hr
    · rcases List.mem_cons.1 hx with rfl | hx
      · exact hr'
      · exact List.mem_singleton.1 hx ▸ hr''
  refine (h.push [r, r', r''] hmem hop inA inB c hoperands).of_readings fun _ _ x hx => ?_
  obtain rfl := List.mem_singleton.1 hx
  refine ⟨_, List.mem_cons_self, rfl, rfl, fun written => ?_⟩
  show (∀ x ∈ [r, r', r''], x.right written) ↔ _
  rw [List.forall_mem_cons, List.forall_mem_cons, List.forall_mem_singleton]

theorem appendScale_slot {inputSlot slot : Nat} {inputScale targetScale : Int}
    (h : appendScaleProjectStep inputSlot inputScale targetScale s = some (slot, s')) :
    slot = inputSlot ∨ slot = s.nextInt64Slot := by
  rw [appendScaleProjectStep] at h
  split at h
  · cases h
    exact .inl rfl
  · obtain ⟨factor, -, h⟩ := Option.bind_eq_some_iff.1 h
    split at h
    · cases h
    · cases h
      exact .inr rfl

/-- **Two operands brought to one scale.** -/
theorem Placed.alignBoth {rs : List Reading} {r r' : Reading} {lhsScale rhsScale outScale : Int}
    {lhsAligned rhsAligned : Nat} (h : Placed columns s s' n rs) (hr : r ∈ rs) (hr' : r' ∈ rs)
    (halign : alignOperands (lhsScale, r.slot) (rhsScale, r'.slot) s' =
      some (outScale, (lhsAligned, rhsAligned), s'')) :
    outScale = max lhsScale rhsScale ∧ (r'.slot < 256 → rhsAligned < 256) ∧
      Placed columns s s'' (n + alignSlots lhsScale outScale + alignSlots rhsScale outScale)
        (⟨rhsAligned, alignTerm r'.term rhsScale outScale, r'.right⟩ ::
          ⟨lhsAligned, alignTerm r.term lhsScale outScale, r.right⟩ :: rs) := by
  obtain ⟨⟨lhsAligned', s₁⟩, hlhs, hrest⟩ := Option.bind_eq_some_iff.1 halign
  obtain ⟨⟨rhsAligned', s₂⟩, hrhs, heq⟩ := Option.map_eq_some_iff.1 hrest
  cases heq
  have hfirst := h.align hr hlhs
  refine ⟨rfl, fun hlt => ?_, hfirst.align (List.mem_cons_of_mem _ hr') hrhs⟩
  rcases appendScale_slot hrhs with heq | heq
  · exact heq ▸ hlt
  · exact heq ▸ hfirst.next_lt

/-- A constant that is lowered. -/
theorem constantValue_eq {const : Option Bytes} {constScale : Int} {constValue : Int64}
    (h : scaleNumericConstantToInt64 S const = some (constScale, constValue)) :
    constScale = decimals (const.getD []) ∧ constantValue S const = constValue := by
  refine ⟨?_, by rw [constantValue, h]; rfl⟩
  obtain ⟨text, rfl, h⟩ := Option.bind_eq_some_iff.1 h
  obtain ⟨v, -, h⟩ := Option.bind_eq_some_iff.1 h
  cases h
  rfl

/-- The constant of a sum, brought to the scale of the result. -/
theorem alignedValue_eq {const : Option Bytes} {constScale outScale : Int} {constValue value : Int64}
    (hconst : scaleNumericConstantToInt64 S const = some (constScale, constValue))
    (hvalue : ProjectionSteps.rescaleInt64Constant constValue constScale outScale = some value) :
    alignedValue S const outScale = value := by
  obtain ⟨hscale, hconstant⟩ := constantValue_eq hconst
  rw [alignedValue, hconstant, ← hscale, hvalue]
  rfl

theorem asConst_eq_some {e : Expr} {const : Option Bytes} (h : e.asConst = some const) :
    e = .constant const := by
  cases e <;> cases h
  rfl

/-- An expression that is lowered is placed. -/
def Lowers (S : ConstantSupport) (columns : Columns) (e : Expr) : Prop :=
  ∀ {s s' : LowerState} {outScale : Int} {slot : Nat}, s.nextInt64Slot < 256 →
    lowerOptimizerExpr S columns e s = some (outScale, slot, s') →
      LoweredExpr S columns e s outScale slot s'

section Binary

-- Each case below runs the lowering: its equations are derived once, here.
attribute [local simp] lowerOptimizerExpr exprSlots exprTerm binaryTerm ExprReads scale

variable {op : ArithOp} {rettype : Nat} {lhs rhs : Expr} {outScale : Int} {slot : Nat}

theorem lowered_div (hlhs : Lowers S columns lhs) (hrhs : Lowers S columns rhs)
    (hs : s.nextInt64Slot < 256)
    (h : lowerOptimizerExpr S columns (.binary .div rettype lhs rhs) s =
      some (outScale, slot, s')) :
    LoweredExpr S columns (.binary .div rettype lhs rhs) s outScale slot s' := by
  simp only [lowerOptimizerExpr] at h
  split at h
  · cases h
  · obtain ⟨⟨lhsScale, lhsSlot, s₁⟩, hl, hrest⟩ := Option.bind_eq_some_iff.1 h
    obtain ⟨⟨rhsScale, rhsSlot, s₂⟩, hr, hlast⟩ := Option.bind_eq_some_iff.1 hrest
    obtain ⟨factor, hfactor, heq⟩ := Option.map_eq_some_iff.1 hlast
    have hleft := hlhs hs hl
    have hright := hrhs hleft.placed.next_lt hr
    have hpair := hleft.pair hright
    cases heq
    have hscales : lhsScale = scale columns lhs ∧ rhsScale = scale columns rhs :=
      ⟨hleft.scale_eq, hright.scale_eq⟩
    have hop : ProjectOp.numeric .numericDivVarVar ≠ .stringPrefixSlice := by decide
    have hpower : factor = power (ProjectionSteps.divisionScale
        (lhs.asConst.isSome || rhs.asConst.isSome) (scale columns lhs) (scale columns rhs) +
          scale columns rhs - scale columns lhs).toNat := by
      rw [← hscales.1, ← hscales.2]
      rw [ProjectionSteps.pow10Int64] at hfactor
      split at hfactor
      · cases hfactor
      · exact (Option.some.inj hfactor).symm
    refine ⟨?_, hpair.next_lt, fun _ => rfl, ?_⟩
    · rw [scale, hscales.1, hscales.2]
    · rw [exprSlots, exprTerm, binaryTerm]
      refine (hpair.two List.mem_cons_self (List.mem_cons_of_mem _ List.mem_cons_self) hop factor
        fun out => rfl).of_readings fun _ _ r' hr' => ?_
      obtain rfl := List.mem_singleton.1 hr'
      refine ⟨_, List.mem_singleton_self _, rfl, ?_, fun written => ?_⟩
      · rw [← hpower]
        rfl
      · show _ ↔ ExprReads columns (.binary .div rettype lhs rhs) s.nextInt64Slot written
        rw [ExprReads]

theorem lowered_mul (hlhs : Lowers S columns lhs) (hrhs : Lowers S columns rhs)
    (hs : s.nextInt64Slot < 256)
    (h : lowerOptimizerExpr S columns (.binary .mul rettype lhs rhs) s =
      some (outScale, slot, s')) :
    LoweredExpr S columns (.binary .mul rettype lhs rhs) s outScale slot s' := by
  have hconstOp : ProjectOp.numeric .numericMulVarConst ≠ .stringPrefixSlice := by decide
  have hvarOp : ProjectOp.numeric .numericMulVarVar ≠ .stringPrefixSlice := by decide
  cases hl : lhs.asConst with
  | some const =>
    cases hr : rhs.asConst with
    | some _ =>
      simp only [lowerOptimizerExpr, hl, hr] at h
      cases h
    | none =>
      simp only [lowerOptimizerExpr, hl, hr] at h
      obtain ⟨⟨varScale, varSlot, s₁⟩, hvar, hrest⟩ := Option.bind_eq_some_iff.1 h
      obtain ⟨⟨constScale, constValue⟩, hconst, hpush⟩ := Option.bind_eq_some_iff.1 hrest
      obtain ⟨rfl, rfl, rfl⟩ := pushChecked_spec hpush
      have hvar := hrhs hs hvar
      obtain ⟨hscale, hvalue⟩ := constantValue_eq hconst
      refine ⟨?_, hvar.placed.next_lt, fun _ => rfl, ?_⟩
      · rw [scale, asConst_eq_some hl, scale, hscale, ← hvar.scale_eq, add_comm]
      · simp only [exprSlots, exprTerm, binaryTerm, hl]
        refine (hvar.placed.one hconstOp varSlot 0 constValue fun out => rfl).of_readings
          fun _ _ r' hr' => ?_
        obtain rfl := List.mem_singleton.1 hr'
        refine ⟨_, List.mem_singleton_self _, rfl, ?_, fun written => ?_⟩
        · rw [hvalue]
          rfl
        · simp only [ExprReads, hl]
  | none =>
    cases hr : rhs.asConst with
    | some const =>
      simp only [lowerOptimizerExpr, hl, hr] at h
      obtain ⟨⟨varScale, varSlot, s₁⟩, hvar, hrest⟩ := Option.bind_eq_some_iff.1 h
      obtain ⟨⟨constScale, constValue⟩, hconst, hpush⟩ := Option.bind_eq_some_iff.1 hrest
      obtain ⟨rfl, rfl, rfl⟩ := pushChecked_spec hpush
      have hvar := hlhs hs hvar
      obtain ⟨hscale, hvalue⟩ := constantValue_eq hconst
      refine ⟨?_, hvar.placed.next_lt, fun _ => rfl, ?_⟩
      · rw [scale, asConst_eq_some hr, scale, hscale, ← hvar.scale_eq]
      · simp only [exprSlots, exprTerm, binaryTerm, hl, hr]
        refine (hvar.placed.one hconstOp varSlot 0 constValue fun out => rfl).of_readings
          fun _ _ r' hr' => ?_
        obtain rfl := List.mem_singleton.1 hr'
        refine ⟨_, List.mem_singleton_self _, rfl, ?_, fun written => ?_⟩
        · rw [hvalue]
          rfl
        · simp only [ExprReads, hl, hr]
    | none =>
      simp only [lowerOptimizerExpr, hl, hr] at h
      obtain ⟨⟨lhsScale, lhsSlot, s₁⟩, hl', hrest⟩ := Option.bind_eq_some_iff.1 h
      obtain ⟨⟨rhsScale, rhsSlot, s₂⟩, hr', hpush⟩ := Option.bind_eq_some_iff.1 hrest
      obtain ⟨rfl, rfl, rfl⟩ := pushChecked_spec hpush
      have hleft := hlhs hs hl'
      have hright := hrhs hleft.placed.next_lt hr'
      have hpair := hleft.pair hright
      refine ⟨?_, hpair.next_lt, fun _ => rfl, ?_⟩
      · rw [scale, ← hleft.scale_eq, ← hright.scale_eq]
      · simp only [exprSlots, exprTerm, binaryTerm, hl, hr]
        refine (hpair.two List.mem_cons_self (List.mem_cons_of_mem _ List.mem_cons_self) hvarOp 0
          fun out => rfl).of_readings fun _ _ r' hr' => ?_
        obtain rfl := List.mem_singleton.1 hr'
        refine ⟨_, List.mem_singleton_self _, rfl, rfl, fun written => ?_⟩
        simp only [ExprReads, hl, hr]

/-- A sum or a difference with a constant before the operator. -/
theorem lowered_constSum {const : Option Bytes} (hop : op = .add ∨ op = .sub)
    (hl : lhs.asConst = some const) (hrhs : Lowers S columns rhs) (hs : s.nextInt64Slot < 256)
    (h : lowerOptimizerExpr S columns (.binary op rettype lhs rhs) s =
      some (outScale, slot, s')) :
    LoweredExpr S columns (.binary op rettype lhs rhs) s outScale slot s' := by
  cases hr : rhs.asConst with
  | some _ =>
    rcases hop with rfl | rfl
    · simp only [lowerOptimizerExpr, hl, hr] at h
      cases h
    · simp only [lowerOptimizerExpr, hl, hr] at h
      cases h
  | none =>
    have hrun : ∃ varScale varSlot s₁ constScale constValue value,
        lowerOptimizerExpr S columns rhs s = some (varScale, varSlot, s₁) ∧
          scaleNumericConstantToInt64 S const = some (constScale, constValue) ∧
          ProjectionSteps.rescaleInt64Constant constValue constScale (max constScale varScale) =
            some value ∧
          pushChecked s₁ (.numeric (if op = .sub then .numericSubConstVar else .numericAddConstVar))
            0 varSlot value (max constScale varScale) = some (outScale, slot, s') := by
      rcases hop with rfl | rfl
      all_goals
        simp only [lowerOptimizerExpr, hl, hr] at h
        obtain ⟨⟨varScale, varSlot, s₁⟩, hvar, hrest⟩ := Option.bind_eq_some_iff.1 h
        obtain ⟨⟨constScale, constValue⟩, hconst, hlast⟩ := Option.bind_eq_some_iff.1 hrest
        obtain ⟨value, hvalue, hpush⟩ := Option.bind_eq_some_iff.1 hlast
        exact ⟨varScale, varSlot, s₁, constScale, constValue, value, hvar, hconst, hvalue, hpush⟩
    obtain ⟨varScale, varSlot, s₁, constScale, constValue, value, hvar, hconst, hvalue, hpush⟩ := hrun
    obtain ⟨rfl, rfl, rfl⟩ := pushChecked_spec hpush
    have hvar := hrhs hs hvar
    obtain ⟨hscale, -⟩ := constantValue_eq hconst
    have hstepOp : ProjectOp.numeric (if op = .sub then .numericSubConstVar
        else .numericAddConstVar) ≠ .stringPrefixSlice := nofun
    have hterm : binaryTerm S op lhs rhs (scale columns lhs) (scale columns rhs)
        (exprTerm S columns lhs) (exprTerm S columns rhs) =
          .result (.numeric (if op = .sub then .numericSubConstVar else .numericAddConstVar)) 0
            value [exprTerm S columns rhs] := by
      have haligned := alignedValue_eq hconst hvalue
      rw [hscale, hvar.scale_eq] at haligned
      rcases hop with rfl | rfl <;> simp only [binaryTerm, hl] <;>
        rw [asConst_eq_some hl, scale, haligned]
    have hslots : exprSlots columns (.binary op rettype lhs rhs) = exprSlots columns rhs + 1 := by
      rcases hop with rfl | rfl <;> simp only [exprSlots, hl]
    refine ⟨?_, hvar.placed.next_lt, fun _ => rfl, ?_⟩
    · rcases hop with rfl | rfl <;>
        rw [scale, asConst_eq_some hl, scale, hscale, hvar.scale_eq]
    · rw [hslots, exprTerm, hterm]
      have hstep := hvar.placed.one hstepOp 0 varSlot value fun out => by
        rcases hop with rfl | rfl <;> rfl
      refine hstep.of_readings fun _ _ r' hr' => ?_
      obtain rfl := List.mem_singleton.1 hr'
      refine ⟨_, List.mem_singleton_self _, rfl, ?_, fun written => ?_⟩
      · rcases hop with rfl | rfl <;> rfl
      · rcases hop with rfl | rfl <;> simp only [ExprReads, hl]

/-- A sum or a difference with a constant behind the operator. -/
theorem lowered_sumConst {const : Option Bytes} (hop : op = .add ∨ op = .sub)
    (hl : lhs.asConst = none) (hr : rhs.asConst = some const) (hlhs : Lowers S columns lhs)
    (hs : s.nextInt64Slot < 256)
    (h : lowerOptimizerExpr S columns (.binary op rettype lhs rhs) s =
      some (outScale, slot, s')) :
    LoweredExpr S columns (.binary op rettype lhs rhs) s outScale slot s' := by
  have hrun : ∃ varScale varSlot s₁ constScale constValue aligned s₂ value,
      lowerOptimizerExpr S columns lhs s = some (varScale, varSlot, s₁) ∧
        scaleNumericConstantToInt64 S const = some (constScale, constValue) ∧
        appendScaleProjectStep varSlot varScale (max varScale constScale) s₁ = some (aligned, s₂) ∧
        ProjectionSteps.rescaleInt64Constant constValue constScale (max varScale constScale) =
          some value ∧
        pushChecked s₂ (.numeric (if op = .sub then .numericSubVarConst else .numericAddVarConst))
          aligned 0 value (max varScale constScale) = some (outScale, slot, s') := by
    rcases hop with rfl | rfl
    all_goals
      simp only [lowerOptimizerExpr, hl, hr] at h
      obtain ⟨⟨varScale, varSlot, s₁⟩, hvar, hrest⟩ := Option.bind_eq_some_iff.1 h
      obtain ⟨⟨constScale, constValue⟩, hconst, hmore⟩ := Option.bind_eq_some_iff.1 hrest
      obtain ⟨⟨aligned, s₂⟩, halign, hlast⟩ := Option.bind_eq_some_iff.1 hmore
      obtain ⟨value, hvalue, hpush⟩ := Option.bind_eq_some_iff.1 hlast
      exact ⟨varScale, varSlot, s₁, constScale, constValue, aligned, s₂, value, hvar, hconst,
        halign, hvalue, hpush⟩
  obtain ⟨varScale, varSlot, s₁, constScale, constValue, aligned, s₂, value, hvar, hconst, halign,
    hvalue, hpush⟩ := hrun
  obtain ⟨rfl, rfl, rfl⟩ := pushChecked_spec hpush
  have hvar := hlhs hs hvar
  obtain ⟨hscale, -⟩ := constantValue_eq hconst
  have hrhsScale : scale columns rhs = constScale := by rw [asConst_eq_some hr, scale, hscale]
  have hstepOp : ProjectOp.numeric (if op = .sub then .numericSubVarConst
      else .numericAddVarConst) ≠ .stringPrefixSlice := nofun
  have hterm : binaryTerm S op lhs rhs (scale columns lhs) (scale columns rhs)
      (exprTerm S columns lhs) (exprTerm S columns rhs) =
        .result (.numeric (if op = .sub then .numericSubVarConst else .numericAddVarConst)) 0 value
          [alignTerm (exprTerm S columns lhs) varScale (max varScale constScale)] := by
    have haligned := alignedValue_eq hconst hvalue
    rcases hop with rfl | rfl <;> simp only [binaryTerm, hl, hr] <;>
      rw [hrhsScale, ← hvar.scale_eq, haligned]
  have hslots : exprSlots columns (.binary op rettype lhs rhs) =
      exprSlots columns lhs + alignSlots varScale (max varScale constScale) + 1 := by
    rcases hop with rfl | rfl <;> simp only [exprSlots, hl, hr] <;>
      rw [hrhsScale, ← hvar.scale_eq]
  have halignPlaced := hvar.placed.align (List.mem_singleton_self _) halign
  refine ⟨?_, halignPlaced.next_lt, fun _ => rfl, ?_⟩
  · rcases hop with rfl | rfl <;> rw [scale, hrhsScale, hvar.scale_eq]
  · rw [hslots, exprTerm, hterm]
    have honly : Placed columns s s₂ _
        [⟨aligned, alignTerm (exprTerm S columns lhs) varScale (max varScale constScale),
          ExprReads columns lhs s.nextInt64Slot⟩] :=
      halignPlaced.of_readings fun _ _ r' hr' =>
        ⟨_, List.mem_cons_self, List.mem_singleton.1 hr' ▸ ⟨rfl, rfl, fun _ => Iff.rfl⟩⟩
    have hstep := honly.one hstepOp aligned 0 value fun out => by
      rcases hop with rfl | rfl <;> rfl
    refine hstep.of_readings fun _ _ r' hr' => ?_
    obtain rfl := List.mem_singleton.1 hr'
    refine ⟨_, List.mem_singleton_self _, rfl, ?_, fun written => ?_⟩
    · rcases hop with rfl | rfl <;> rfl
    · rcases hop with rfl | rfl <;> simp only [ExprReads, hl, hr]

/-- A sum or a difference of two operands in slots. -/
theorem lowered_varSum (hop : op = .add ∨ op = .sub) (hl : lhs.asConst = none)
    (hr : rhs.asConst = none) (hlhs : Lowers S columns lhs) (hrhs : Lowers S columns rhs)
    (hs : s.nextInt64Slot < 256)
    (h : lowerOptimizerExpr S columns (.binary op rettype lhs rhs) s =
      some (outScale, slot, s')) :
    LoweredExpr S columns (.binary op rettype lhs rhs) s outScale slot s' := by
  have hrun : ∃ lhsScale lhsSlot s₁ rhsScale rhsSlot s₂ resultScale lhsAligned rhsAligned s₃,
      lowerOptimizerExpr S columns lhs s = some (lhsScale, lhsSlot, s₁) ∧
        lowerOptimizerExpr S columns rhs s₁ = some (rhsScale, rhsSlot, s₂) ∧
        alignOperands (lhsScale, lhsSlot) (rhsScale, rhsSlot) s₂ =
          some (resultScale, (lhsAligned, rhsAligned), s₃) ∧
        pushChecked s₃ (.numeric (varVarOp op)) lhsAligned rhsAligned 0 resultScale =
          some (outScale, slot, s') := by
    rcases hop with rfl | rfl
    all_goals
      simp only [lowerOptimizerExpr, hl, hr] at h
      obtain ⟨⟨lhsScale, lhsSlot, s₁⟩, hl', hrest⟩ := Option.bind_eq_some_iff.1 h
      obtain ⟨⟨rhsScale, rhsSlot, s₂⟩, hr', hmore⟩ := Option.bind_eq_some_iff.1 hrest
      obtain ⟨⟨resultScale, ⟨lhsAligned, rhsAligned⟩, s₃⟩, halign, hpush⟩ :=
        Option.bind_eq_some_iff.1 hmore
      exact ⟨lhsScale, lhsSlot, s₁, rhsScale, rhsSlot, s₂, resultScale, lhsAligned, rhsAligned, s₃,
        hl', hr', halign, hpush⟩
  obtain ⟨lhsScale, lhsSlot, s₁, rhsScale, rhsSlot, s₂, resultScale, lhsAligned, rhsAligned, s₃,
    hl', hr', halign, hpush⟩ := hrun
  obtain ⟨rfl, rfl, rfl⟩ := pushChecked_spec hpush
  have hleft := hlhs hs hl'
  have hright := hrhs hleft.placed.next_lt hr'
  have hpair := hleft.pair hright
  obtain ⟨rfl, -, hboth⟩ := hpair.alignBoth List.mem_cons_self
    (List.mem_cons_of_mem _ List.mem_cons_self) halign
  have hstepOp : ProjectOp.numeric (varVarOp op) ≠ .stringPrefixSlice := nofun
  have hterm : binaryTerm S op lhs rhs (scale columns lhs) (scale columns rhs)
      (exprTerm S columns lhs) (exprTerm S columns rhs) = .result (.numeric (varVarOp op)) 0 0
        [alignTerm (exprTerm S columns lhs) lhsScale (max lhsScale rhsScale),
          alignTerm (exprTerm S columns rhs) rhsScale (max lhsScale rhsScale)] := by
    rcases hop with rfl | rfl <;> simp only [binaryTerm, hl, hr] <;>
      rw [← hleft.scale_eq, ← hright.scale_eq]
  have hslots : exprSlots columns (.binary op rettype lhs rhs) =
      exprSlots columns lhs + exprSlots columns rhs + alignSlots lhsScale (max lhsScale rhsScale) +
        alignSlots rhsScale (max lhsScale rhsScale) + 1 := by
    rcases hop with rfl | rfl <;> simp only [exprSlots, hl, hr] <;>
      rw [← hleft.scale_eq, ← hright.scale_eq]
  refine ⟨?_, hboth.next_lt, fun _ => rfl, ?_⟩
  · rcases hop with rfl | rfl <;> rw [scale, ← hleft.scale_eq, ← hright.scale_eq]
  · rw [hslots, exprTerm, hterm]
    have hstep := hboth.two (List.mem_cons_of_mem _ List.mem_cons_self) List.mem_cons_self hstepOp 0
      fun out => by rcases hop with rfl | rfl <;> rfl
    refine hstep.of_readings fun _ _ r' hr'' => ?_
    obtain rfl := List.mem_singleton.1 hr''
    refine ⟨_, List.mem_singleton_self _, rfl, ?_, fun written => ?_⟩
    · rcases hop with rfl | rfl <;> rfl
    · rcases hop with rfl | rfl <;> simp only [ExprReads, hl, hr]

theorem lowered_binary (hlhs : Lowers S columns lhs) (hrhs : Lowers S columns rhs)
    (hs : s.nextInt64Slot < 256)
    (h : lowerOptimizerExpr S columns (.binary op rettype lhs rhs) s =
      some (outScale, slot, s')) :
    LoweredExpr S columns (.binary op rettype lhs rhs) s outScale slot s' := by
  have hsum : op = .add ∨ op = .sub →
      LoweredExpr S columns (.binary op rettype lhs rhs) s outScale slot s' := by
    intro hop
    cases hl : lhs.asConst with
    | some const => exact lowered_constSum hop hl hrhs hs h
    | none =>
      cases hr : rhs.asConst with
      | some const => exact lowered_sumConst hop hl hr hlhs hs h
      | none => exact lowered_varSum hop hl hr hlhs hrhs hs h
  cases op with
  | add => exact hsum (.inl rfl)
  | sub => exact hsum (.inr rfl)
  | mul => exact lowered_mul hlhs hrhs hs h
  | div => exact lowered_div hlhs hrhs hs h

end Binary

/-- A CASE whose ELSE is a constant. -/
theorem lowered_caseConst {condition : FilterProgram.Expr} {thenArm elseArm : Expr}
    {others : List (FilterProgram.Expr × Expr)} {const : Option Bytes} {outScale : Int} {slot : Nat}
    (helse : elseArm.asConst = some const) (hthen : Lowers S columns thenArm)
    (hs : s.nextInt64Slot < 256)
    (h : lowerOptimizerExpr S columns (.case condition thenArm others elseArm) s =
      some (outScale, slot, s')) :
    LoweredExpr S columns (.case condition thenArm others elseArm) s outScale slot s' := by
  simp only [lowerOptimizerExpr, helse] at h
  obtain ⟨⟨condSlot, s₁⟩, hcond, hrest⟩ := Option.bind_eq_some_iff.1 h
  obtain ⟨⟨thenScale, thenSlot, s₂⟩, hthen', hmore⟩ := Option.bind_eq_some_iff.1 hrest
  obtain ⟨elseValue, hvalue, hpush⟩ := Option.bind_eq_some_iff.1 hmore
  obtain ⟨rfl, rfl, rfl⟩ := pushChecked_spec hpush
  have hcondPlaced := placed_condition condition hs hcond
  have hthenPlaced := hthen hcondPlaced.next_lt hthen'
  have hboth := hcondPlaced.seq hthenPlaced.placed
  have hop : ProjectOp.numericCaseVarConst ≠ .stringPrefixSlice := by decide
  refine ⟨?_, hboth.next_lt, fun _ => rfl, ?_⟩
  · rw [scale, helse, hthenPlaced.scale_eq]
    rfl
  · simp only [exprSlots, exprTerm, helse]
    refine (hboth.two List.mem_cons_self (List.mem_cons_of_mem _ List.mem_cons_self) hop elseValue
      fun out => rfl).of_readings fun hfits _ r' hr' => ?_
    obtain rfl := List.mem_singleton.1 hr'
    refine ⟨_, List.mem_singleton_self _, rfl, ?_, fun written => ?_⟩
    · rw [← hthenPlaced.scale_eq, hvalue]
      rfl
    · obtain ⟨new, hemits, -⟩ := hcondPlaced.run
      have hnext := hemits.next_eq (by omega)
      simp only [ExprReads, helse, ← hnext]
      exact and_congr_right fun _ => (and_iff_left nofun).symm

theorem elseSlot_ofNat {slot : Nat} (h : slot < 256) (inA inB out : Nat) :
    (⟨.numericCaseElseVar, inA, inB, out, Int64.ofNat slot⟩ : ProjectStep).elseSlot = slot := by
  show (UInt64.ofNat slot).toNat % 256 = slot
  have hwide : slot < 2 ^ 64 := by omega
  rw [UInt64.toNat_ofNat', Nat.mod_eq_of_lt hwide, Nat.mod_eq_of_lt h]

theorem projectionConstant_scale {value : Option Bytes} {constScale : Int} {constValue : Int64}
    (h : projectionConstant S value = some (constScale, constValue)) :
    constScale = decimals (value.getD []) := by
  obtain ⟨text, rfl, h⟩ := Option.bind_eq_some_iff.1 h
  split at h
  · next hintegral =>
    obtain ⟨v, -, heq⟩ := Option.map_eq_some_iff.1 h
    cases heq
    have hpoint : point ∉ text := by
      intro hmem
      have hlower : ∀ lower : Bytes, point ∉ lower → equalsIgnoreCase text lower = false := by
        intro lower hnot
        rw [equalsIgnoreCase, beq_eq_false_iff_ne]
        rintro rfl
        exact hnot (List.mem_map.2 ⟨point, hmem, by decide⟩)
      simp [hlower trueText (by decide), hlower falseText (by decide), hmem] at hintegral
    rw [decimals, Option.getD_some, if_neg hpoint]
  · exact (constantValue_eq h).1

/-- A CASE whose ELSE is an expression. -/
theorem lowered_caseElse {condition : FilterProgram.Expr} {thenArm elseArm : Expr}
    {others : List (FilterProgram.Expr × Expr)} {outScale : Int} {slot : Nat}
    (helse : elseArm.asConst = none) (hthen : Lowers S columns thenArm)
    (helseArm : Lowers S columns elseArm) (hs : s.nextInt64Slot < 256)
    (h : lowerOptimizerExpr S columns (.case condition thenArm others elseArm) s =
      some (outScale, slot, s')) :
    LoweredExpr S columns (.case condition thenArm others elseArm) s outScale slot s' := by
  simp only [lowerOptimizerExpr, helse] at h
  obtain ⟨⟨condSlot, s₁⟩, hcond, hrest⟩ := Option.bind_eq_some_iff.1 h
  obtain ⟨⟨thenScale, thenSlot, s₂⟩, hthen', hmore⟩ := Option.bind_eq_some_iff.1 hrest
  obtain ⟨⟨elseScale, elseSlot, s₃⟩, helse', hlast⟩ := Option.bind_eq_some_iff.1 hmore
  obtain ⟨⟨resultScale, ⟨alignedThen, alignedElse⟩, s₄⟩, halign, hpush⟩ :=
    Option.bind_eq_some_iff.1 hlast
  obtain ⟨rfl, rfl, rfl⟩ := pushChecked_spec hpush
  have hcondPlaced := placed_condition condition hs hcond
  have hthenPlaced := hthen hcondPlaced.next_lt hthen'
  have helsePlaced := helseArm hthenPlaced.placed.next_lt helse'
  have hall := hcondPlaced.seq (hthenPlaced.pair helsePlaced)
  obtain ⟨rfl, hlt, hboth⟩ := hall.alignBoth
    (List.mem_cons_of_mem _ List.mem_cons_self)
    (List.mem_cons_of_mem _ (List.mem_cons_of_mem _ List.mem_cons_self)) halign
  have hop : ProjectOp.numericCaseElseVar ≠ .stringPrefixSlice := by decide
  have helseSlot := elseSlot_ofNat (hlt helsePlaced.slot_lt) condSlot alignedThen
  refine ⟨?_, hboth.next_lt, fun _ => rfl, ?_⟩
  · show max thenScale elseScale = _
    rw [scale, helse, hthenPlaced.scale_eq, helsePlaced.scale_eq]
    rfl
  · have hstep := hboth.three
      (List.mem_cons_of_mem _ (List.mem_cons_of_mem _ List.mem_cons_self))
      (List.mem_cons_of_mem _ List.mem_cons_self) List.mem_cons_self hop condSlot alignedThen
      (Int64.ofNat alignedElse) fun out => by
        show [_, _, (Storage.int64, _)] = _
        rw [helseSlot]
    simp only [exprSlots, exprTerm, helse, ← hthenPlaced.scale_eq, ← helsePlaced.scale_eq]
    rw [← Nat.add_assoc] at hstep
    refine hstep.of_readings fun hfits _ r' hr' => ?_
    obtain rfl := List.mem_singleton.1 hr'
    refine ⟨_, List.mem_singleton_self _, rfl, rfl, fun written => ?_⟩
    obtain ⟨new, hemits, -⟩ := hcondPlaced.run
    have hnext := hemits.next_eq (by omega)
    simp only [ExprReads, helse, ← hnext, true_implies]
    rfl

/-- **What is lowered is placed.** -/
theorem loweredExpr_of_lower : ∀ e : Expr, Lowers S columns e
  | .column col, s, s', outScale, slot, hs, h => by
    rw [lowerOptimizerExpr] at h
    obtain ⟨source, hcol, heq⟩ := Option.map_eq_some_iff.1 h
    cases heq
    refine ⟨?_, source.chunkSlot_lt, nofun, ?_⟩
    · rw [scale, hcol]
      rfl
    · rw [exprSlots, exprTerm]
      exact Placed.column hs hcol
  | .constant value, s, s', outScale, slot, hs, h => by
    rw [lowerOptimizerExpr, lowerProjectionConstant] at h
    obtain ⟨⟨constScale, constValue⟩, hconst, hpush⟩ := Option.bind_eq_some_iff.1 h
    obtain ⟨rfl, rfl, rfl⟩ := pushChecked_spec hpush
    have hop : ProjectOp.numeric .constInt64 ≠ .stringPrefixSlice := by decide
    refine ⟨?_, hs, fun _ => rfl, ?_⟩
    · rw [scale]
      exact projectionConstant_scale hconst
    · rw [exprSlots, exprTerm, hconst]
      refine ((Placed.nil hs).push [] nofun hop 0 0 constValue fun out => rfl).of_readings
        fun _ _ r' hr' => ?_
      obtain rfl := List.mem_singleton.1 hr'
      refine ⟨_, List.mem_cons_self, rfl, rfl, fun written => ?_⟩
      show (∀ r ∈ [], _) ↔ ExprReads columns (.constant value) s.nextInt64Slot written
      rw [ExprReads]
      exact iff_true_intro nofun
  | .cast child, s, s', outScale, slot, hs, h => by
    rw [lowerOptimizerExpr] at h
    obtain ⟨hscale, hlt, hlast, hplaced⟩ := loweredExpr_of_lower child hs h
    refine ⟨?_, hlt, hlast, ?_⟩
    · rw [scale, hscale]
    · rw [exprSlots, exprTerm]
      refine hplaced.of_readings fun _ _ r' hr' => ?_
      obtain rfl := List.mem_singleton.1 hr'
      refine ⟨_, List.mem_singleton_self _, rfl, rfl, fun written => ?_⟩
      show _ ↔ ExprReads columns (.cast child) s.nextInt64Slot written
      rw [ExprReads]
  | .extract field value, s, s', outScale, slot, hs, h => by
    rw [lowerOptimizerExpr] at h
    cases value with
    | column col =>
      obtain ⟨source, hcol, hextract⟩ := Option.bind_eq_some_iff.1 h
      split at hextract
      · next hfield =>
        obtain ⟨rfl, rfl, rfl⟩ := pushChecked_spec hextract
        have hop : ProjectOp.extractYearFromDate ≠ .stringPrefixSlice := by decide
        have hkind : source.decodeKind = .int32Date := by
          rw [Bool.and_eq_true, decide_eq_true_eq] at hfield
          exact hfield.2
        refine ⟨by rw [scale], hs, fun _ => rfl, ?_⟩
        rw [exprSlots, exprTerm, exprTerm]
        refine (placed_readColumn hs hop 0 0 hcol fun out => by
          rw [hkind]
          rfl).of_readings fun _ _ r' hr' => ?_
        obtain rfl := List.mem_singleton.1 hr'
        refine ⟨_, List.mem_singleton_self _, rfl, rfl, fun written => ?_⟩
        show _ ↔ ExprReads columns (.extract field (.column col)) s.nextInt64Slot written
        rw [ExprReads]
      · cases hextract
    | _ => cases h
  | .binary op rettype lhs rhs, s, s', outScale, slot, hs, h =>
    lowered_binary (loweredExpr_of_lower lhs) (loweredExpr_of_lower rhs) hs h
  | .case condition thenArm others elseArm, s, s', outScale, slot, hs, h => by
    cases helse : elseArm.asConst with
    | some const => exact lowered_caseConst helse (loweredExpr_of_lower thenArm) hs h
    | none =>
      exact lowered_caseElse helse (loweredExpr_of_lower thenArm) (loweredExpr_of_lower elseArm) hs h

end Expressions

end ProjectionRegisters
end PgYaap
