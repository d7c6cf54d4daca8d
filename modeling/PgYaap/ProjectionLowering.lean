import PgYaap.ProjectionTape

/-! # Lowering expressions to the tape of a projection

The select list of a projection is lowered one expression after the other to steps of one tape. A
column stays in the slot it has; a constant, an operation, a comparison, a connective and a CASE get a
step each, with a slot of the `int64` array for the result, and so do the widening of a four-byte
integer and the rescaling of an operand. Slots are handed out by a counter of eight bits that starts
behind the child's columns of the `int64` array. It is compared with sixteen, the number of slots, at
some places before a slot is handed out; below a negation, a connective and a quotient this is before
the operands are lowered.

The type and the scale of a result are inferred by a recursion of their own and published to the
parent, with the scale that the lowering has found.

A column is known by its number; what stands in it, and in which slot, is in the child's schema. The
conditions of a CASE are predicates as filters have them. Function calls other than those here are
refused, and so is `prefix_slice`, which is lowered apart into the string array. -/
namespace PgYaap
namespace ProjectionLowering

open FilterProgram (BoolExprType ColumnDecodeKind ColumnSchema Compare Operand QualOp TypeSupport
  columnNumericScale extractNumericTypmodScale fitsInt64 mapComparisonNameToQualOp toInt8
  tryExtractLikePattern)
open ProjectionSteps (ArithOp)
open ProjectionTape SqlLogic

/-! ## Constants -/

/-- The server's readers of constants, with `strtod` as the test of `LooksLikeNumericLiteral`. -/
structure ConstantSupport extends TypeSupport where
  looksLikeNumericLiteral : Bytes → Bool

/-- `isspace`. -/
def isSpace (c : UInt8) : Bool := c == 32 || (9 ≤ c && c ≤ 13)

def isDigit (c : UInt8) : Bool := 48 ≤ c && c ≤ 57

/-- `strtoll` to the base ten, with blanks at most behind the number. -/
def strtoll (text : Bytes) : Option Int64 :=
  let body := text.dropWhile isSpace
  let digits := if body.head? = some 45 ∨ body.head? = some 43 then body.tail else body
  let number : Int := (digits.takeWhile isDigit).foldl (fun v c => 10 * v + (c.toNat - 48)) 0
  let value := if body.head? = some 45 then -number else number
  if digits.takeWhile isDigit ≠ [] ∧ (digits.dropWhile isDigit).all isSpace ∧ fitsInt64 value then
    some (Int64.ofInt value)
  else none

/-- A character in lower case. -/
def toLower (c : UInt8) : UInt8 := if 65 ≤ c && c ≤ 90 then c + 32 else c

/-- `pg_strcasecmp` with a text in lower case. -/
def equalsIgnoreCase (text lower : Bytes) : Bool := text.map toLower == lower

/-- `true`, `false` and `year`. -/
def trueText : Bytes := [116, 114, 117, 101]
def falseText : Bytes := [102, 97, 108, 115, 101]
def yearText : Bytes := [121, 101, 97, 114]

/-- The character `.`. -/
abbrev point : UInt8 := 46

/-- The number of characters behind the first point, in eight bits. -/
def decimals (text : Bytes) : Int :=
  if point ∈ text then toInt8 (text.length - text.idxOf point - 1) else 0

/-- `ScaleNumericConstantToTargetScale`. -/
def scaleNumericConstantToTargetScale (S : ConstantSupport) (text : Bytes) (targetScale : Int) :
    Option Int64 :=
  if S.looksLikeNumericLiteral text then
    FilterProgram.scaleNumericConstantToTargetScale S.toTypeSupport text targetScale
  else none

/-- `ScaleNumericConstantToInt64`. -/
def scaleNumericConstantToInt64 (S : ConstantSupport) (constant : Option Bytes) :
    Option (Int × Int64) := do
  let text ← constant
  let value ← scaleNumericConstantToTargetScale S text (decimals text)
  some (decimals text, value)

/-- `true`, `false` or an integer. -/
def integralConstant (text : Bytes) : Option Int64 :=
  if equalsIgnoreCase text trueText then some 1
  else if equalsIgnoreCase text falseText then some 0
  else strtoll text

/-- `ScaleIntegralConstantToTargetScale`. -/
def scaleIntegralConstantToTargetScale (text : Bytes) (targetScale : Int) : Option Int64 :=
  if targetScale < 0 then none
  else (integralConstant text).bind (ProjectionSteps.rescaleInt64Constant · 0 targetScale)

/-- `ScaleConstantToTargetScale`. -/
def scaleConstantToTargetScale (S : ConstantSupport) (constant : Option Bytes) (targetScale : Int) :
    Option Int64 := do
  let text ← constant
  if point ∈ text then scaleNumericConstantToTargetScale S text targetScale
  else scaleIntegralConstantToTargetScale text targetScale

/-- Up to eight bytes as the constant of a step. -/
def packBytes (bytes : Bytes) : Int64 := (UInt64.ofNat (ByteMemory.decode bytes)).toInt64

/-! ## The child's columns -/

/-- A column of the child, with its slot, a number of eight bits. -/
structure SourceColumn extends ColumnSchema where
  chunkSlot : Nat
  chunkSlot_lt : chunkSlot < 256

/-- The columns by number, as `LookupBindingColumn` finds them. -/
abbrev Columns := Nat → Option SourceColumn

/-- `bpchar`. -/
abbrev bpcharOid : Nat := 1042

/-! ## Expressions -/

/-- Expressions of a select list. The operator of an operation has the result type that the catalog
gives for it. A CASE has one WHEN or more, and an ELSE. -/
inductive Expr
  | column (col : Nat)
  | constant (value : Option Bytes)
  | cast (child : Expr)
  | extract (field : Bytes) (value : Expr)
  | binary (op : ArithOp) (opRettype : Nat) (lhs rhs : Expr)
  | case (condition : FilterProgram.Expr) (thenArm : Expr)
      (others : List (FilterProgram.Expr × Expr)) (elseArm : Expr)

/-- The constant that an expression is. -/
def Expr.asConst : Expr → Option (Option Bytes)
  | .constant value => some value
  | _ => none

/-! ## Lowering conditions -/

/-- The steps so far and `next_int64_slot`. -/
structure LowerState where
  steps : List ProjectStep
  nextInt64Slot : Nat

/-- A step that writes the next slot. The counter has eight bits. -/
def LowerState.push (s : LowerState) (op : ProjectOp) (inA inB : Nat) (c : Int64) :
    Nat × LowerState :=
  (s.nextInt64Slot,
    ⟨s.steps ++ [⟨op, inA, inB, s.nextInt64Slot, c⟩], (s.nextInt64Slot + 1) % 256⟩)

/-- `next_int64_slot >= 16`. -/
def LowerState.full (s : LowerState) : Bool := 16 ≤ s.nextInt64Slot

/-- `LowerProjectionStringLike`. -/
def lowerProjectionStringLike (columns : Columns) (c : Compare) (s : LowerState) :
    Option (Nat × LowerState) :=
  match c.name, c.left, c.right with
  | .like, .column col, .constant value => do
    let source ← columns col
    let (isPrefix, text) ← tryExtractLikePattern (← value)
    if source.decodeKind ≠ .stringRef || !isPrefix || 8 < text.length || s.full then none
    else some (s.push .stringPrefixLike source.chunkSlot text.length (packBytes text))
  | _, _, _ => none

/-- The step of a comparison of strings. -/
def stringCompareOp : FilterProgram.CompareName → Option ProjectOp
  | .eq => some .stringEqVarConst
  | .ne => some .stringNeVarConst
  | _ => none

/-- `LowerProjectionStringCompare`. Where the function is neither `=` nor `<>`, it has taken a slot
already; what is tried next refuses a string column. -/
def lowerProjectionStringCompare (columns : Columns) (c : Compare) (s : LowerState) :
    Option (Nat × LowerState) :=
  match c.left, c.right with
  | .column col, .constant value => do
    let source ← columns col
    let text ← value
    let op ← stringCompareOp c.name
    if source.decodeKind ≠ .stringRef || 8 < text.length || s.full then none
    else
      let len := if source.typeOid = bpcharOid then text.length + 0x80 else text.length
      some (s.push op source.chunkSlot len (packBytes text))
  | _, _ => none

/-- The constant of a comparison of numbers, by the kind of the column. -/
def numericCompareConst (S : ConstantSupport) (source : SourceColumn) (text : Bytes) : Option Int64 :=
  match source.decodeKind with
  | .int64NumericScaled =>
    scaleConstantToTargetScale S (some text) (columnNumericScale source.toColumnSchema)
  | .int32Int4 | .int64Int8 => strtoll text
  | _ => none

/-- `LowerProjectionNumericCompare`: an integer of four bytes is widened into a slot of its own. -/
def lowerProjectionNumericCompare (S : ConstantSupport) (columns : Columns) (c : Compare)
    (s : LowerState) : Option (Nat × LowerState) :=
  match c.left, c.right with
  | .column col, .constant value => do
    if s.full then none
    else
      let cmpOp ← mapComparisonNameToQualOp c.name
      let text ← value
      let source ← columns col
      let constValue ← numericCompareConst S source text
      if source.decodeKind = .int32Int4 then
        let (widened, s) := s.push .int32ToInt64Var source.chunkSlot 0 0
        some (s.push (.int64VarConst cmpOp) widened 0 constValue)
      else some (s.push (.int64VarConst cmpOp) source.chunkSlot 0 constValue)
  | _, _ => none

/-- The comparisons, in the order they are tried. -/
def lowerProjectionCompare (S : ConstantSupport) (columns : Columns) (c : Compare)
    (s : LowerState) : Option (Nat × LowerState) :=
  (lowerProjectionStringLike columns c s <|> lowerProjectionStringCompare columns c s) <|>
    lowerProjectionNumericCompare S columns c s

def connective : BoolExprType → ProjectOp
  | .and => .boolAndVarVar
  | .or => .boolOrVarVar

mutual

/-- `LowerOptimizerBoolExpr`. -/
def lowerOptimizerBoolExpr (S : ConstantSupport) (columns : Columns) :
    FilterProgram.Expr → LowerState → Option (Nat × LowerState)
  | .compare c, s => lowerProjectionCompare S columns c s
  | .not child, s =>
    if s.full then none
    else (lowerOptimizerBoolExpr S columns child s).map fun (childSlot, s) =>
      s.push .boolNotVar childSlot 0 0
  | .bool _ [], _ => none
  | .bool type (child :: children), s =>
    (lowerOptimizerBoolExpr S columns child s).bind fun (leftSlot, s) =>
      lowerBoolChildren S columns type children leftSlot s

/-- The loop over the children from the second on. -/
def lowerBoolChildren (S : ConstantSupport) (columns : Columns) (type : BoolExprType) :
    List FilterProgram.Expr → Nat → LowerState → Option (Nat × LowerState)
  | [], leftSlot, s => some (leftSlot, s)
  | child :: children, leftSlot, s =>
    if s.full then none
    else (lowerOptimizerBoolExpr S columns child s).bind fun (rightSlot, s) =>
      let (outSlot, s) := s.push (connective type) leftSlot rightSlot 0
      lowerBoolChildren S columns type children outSlot s

end

/-! ## Lowering expressions -/

/-- A scale, kept in eight bits. -/
abbrev scale8 (scale : Int) : Int := toInt8 scale

/-- `AppendScaleProjectStep`. -/
def appendScaleProjectStep (inputSlot : Nat) (inputScale targetScale : Int) (s : LowerState) :
    Option (Nat × LowerState) :=
  if inputScale = targetScale then some (inputSlot, s)
  else
    let delta := targetScale - inputScale
    (ProjectionSteps.pow10Int64 delta.natAbs).bind fun factor =>
      if s.full then none
      else some (s.push (.numeric .numericScaleVarConst) inputSlot 0
        (if 0 ≤ delta then factor else -factor))

/-- The step that is written last, if there is a slot for it. -/
def pushChecked (s : LowerState) (op : ProjectOp) (inA inB : Nat) (c : Int64) (outScale : Int) :
    Option (Int × Nat × LowerState) :=
  if s.full then none else some (outScale, s.push op inA inB c)

/-- The constant of `LowerProjectionConstant` with its scale. -/
def projectionConstant (S : ConstantSupport) (constant : Option Bytes) : Option (Int × Int64) := do
  let text ← constant
  if equalsIgnoreCase text trueText || equalsIgnoreCase text falseText || point ∉ text then
    (integralConstant text).map (0, ·)
  else scaleNumericConstantToInt64 S constant

/-- `LowerProjectionConstant`. -/
def lowerProjectionConstant (S : ConstantSupport) (constant : Option Bytes) (s : LowerState) :
    Option (Int × Nat × LowerState) :=
  (projectionConstant S constant).bind fun (scale, value) =>
    pushChecked s (.numeric .constInt64) 0 0 value scale

/-- `LowerExtractYearExpr`. -/
def lowerExtractYearExpr (columns : Columns) (field : Bytes) (value : Expr) (s : LowerState) :
    Option (Int × Nat × LowerState) :=
  match value with
  | .column col => do
    let source ← columns col
    if equalsIgnoreCase field yearText && source.decodeKind = .int32Date then
      pushChecked s .extractYearFromDate source.chunkSlot 0 0 0
    else none
  | _ => none

/-- The steps of the arithmetic operators with two operands in slots. -/
def varVarOp (op : ArithOp) : ProjectionSteps.ProjectOp :=
  match op with
  | .add => .numericAddVarVar
  | .sub => .numericSubVarVar
  | .mul => .numericMulVarVar
  | .div => .numericDivVarVar

/-- Two operands brought to one scale. -/
def alignOperands (lhs rhs : Int × Nat) (s : LowerState) : Option (Int × (Nat × Nat) × LowerState) :=
  let outScale := max lhs.1 rhs.1
  (appendScaleProjectStep lhs.2 lhs.1 outScale s).bind fun (lhsAligned, s) =>
  (appendScaleProjectStep rhs.2 rhs.1 outScale s).map fun (rhsAligned, s) =>
    (outScale, (lhsAligned, rhsAligned), s)

/-- `LowerOptimizerExpr` without a cache, with `LowerNumericBinaryExpr` and `LowerCaseExpr`. A CASE
is lowered with its first WHEN and its ELSE. -/
def lowerOptimizerExpr (S : ConstantSupport) (columns : Columns) :
    Expr → LowerState → Option (Int × Nat × LowerState)
  | .column col, s =>
    (columns col).map fun source => (columnNumericScale source.toColumnSchema, source.chunkSlot, s)
  | .constant value, s => lowerProjectionConstant S value s
  | .cast child, s => lowerOptimizerExpr S columns child s
  | .extract field value, s => lowerExtractYearExpr columns field value s
  | .binary op _ lhs rhs, s =>
    match op, lhs.asConst, rhs.asConst with
    | .div, lhsConst, rhsConst =>
      if s.full then none
      else
        (lowerOptimizerExpr S columns lhs s).bind fun (lhsScale, lhsSlot, s) =>
        (lowerOptimizerExpr S columns rhs s).bind fun (rhsScale, rhsSlot, s) =>
        let outScale :=
          ProjectionSteps.divisionScale (lhsConst.isSome || rhsConst.isSome) lhsScale rhsScale
        (ProjectionSteps.pow10Int64 (outScale + rhsScale - lhsScale)).map fun factor =>
          (outScale, s.push (.numeric .numericDivVarVar) lhsSlot rhsSlot factor)
    | .mul, some _, some _ => none
    | .mul, some const, none =>
      (lowerOptimizerExpr S columns rhs s).bind fun (varScale, varSlot, s) =>
      (scaleNumericConstantToInt64 S const).bind fun (constScale, constValue) =>
        pushChecked s (.numeric .numericMulVarConst) varSlot 0 constValue
          (scale8 (varScale + constScale))
    | .mul, none, some const =>
      (lowerOptimizerExpr S columns lhs s).bind fun (varScale, varSlot, s) =>
      (scaleNumericConstantToInt64 S const).bind fun (constScale, constValue) =>
        pushChecked s (.numeric .numericMulVarConst) varSlot 0 constValue
          (scale8 (varScale + constScale))
    | .mul, none, none =>
      (lowerOptimizerExpr S columns lhs s).bind fun (lhsScale, lhsSlot, s) =>
      (lowerOptimizerExpr S columns rhs s).bind fun (rhsScale, rhsSlot, s) =>
        pushChecked s (.numeric .numericMulVarVar) lhsSlot rhsSlot 0 (scale8 (lhsScale + rhsScale))
    | _, some _, some _ => none
    | op, some const, none =>
      -- The operand behind a constant keeps its scale.
      (lowerOptimizerExpr S columns rhs s).bind fun (rhsScale, rhsSlot, s) =>
      (scaleNumericConstantToInt64 S const).bind fun (lhsScale, lhsValue) =>
      let outScale := max lhsScale rhsScale
      (ProjectionSteps.rescaleInt64Constant lhsValue lhsScale outScale).bind fun lhsValue =>
        pushChecked s
          (.numeric (if op = .sub then .numericSubConstVar else .numericAddConstVar)) 0 rhsSlot
          lhsValue outScale
    | op, none, some const =>
      (lowerOptimizerExpr S columns lhs s).bind fun (lhsScale, lhsSlot, s) =>
      (scaleNumericConstantToInt64 S const).bind fun (rhsScale, rhsValue) =>
      let outScale := max lhsScale rhsScale
      (appendScaleProjectStep lhsSlot lhsScale outScale s).bind fun (lhsAligned, s) =>
      (ProjectionSteps.rescaleInt64Constant rhsValue rhsScale outScale).bind fun rhsValue =>
        pushChecked s
          (.numeric (if op = .sub then .numericSubVarConst else .numericAddVarConst)) lhsAligned 0
          rhsValue outScale
    | op, none, none =>
      (lowerOptimizerExpr S columns lhs s).bind fun (lhsScale, lhsSlot, s) =>
      (lowerOptimizerExpr S columns rhs s).bind fun (rhsScale, rhsSlot, s) =>
      (alignOperands (lhsScale, lhsSlot) (rhsScale, rhsSlot) s).bind
        fun (outScale, (lhsAligned, rhsAligned), s) =>
          pushChecked s (.numeric (varVarOp op)) lhsAligned rhsAligned 0 outScale
  | .case condition thenArm _ elseArm, s =>
    (lowerOptimizerBoolExpr S columns condition s).bind fun (condSlot, s) =>
    (lowerOptimizerExpr S columns thenArm s).bind fun (thenScale, thenSlot, s) =>
    match elseArm.asConst with
    | some const =>
      (scaleConstantToTargetScale S const thenScale).bind fun elseValue =>
        pushChecked s .numericCaseVarConst condSlot thenSlot elseValue thenScale
    | none =>
      (lowerOptimizerExpr S columns elseArm s).bind fun (elseScale, elseSlot, s) =>
      (alignOperands (thenScale, thenSlot) (elseScale, elseSlot) s).bind
        fun (outScale, (alignedThen, alignedElse), s) =>
          pushChecked s .numericCaseElseVar condSlot alignedThen (Int64.ofNat alignedElse) outScale

/-! ## The select list -/

/-- `NextFreeInt64Slot`. -/
def nextFreeInt64Slot (child : List SourceColumn) : Nat :=
  child.foldl (fun next source =>
    if source.decodeKind = .int64Int8 ∨ source.decodeKind = .int64NumericScaled then
      max next ((source.chunkSlot + 1) % 256)
    else next) 0

/-- `NextFreeStringSlot`. -/
def nextFreeStringSlot (child : List SourceColumn) : Nat :=
  child.foldl (fun next source =>
    if source.decodeKind = .stringRef then max next ((source.chunkSlot + 1) % 256) else next) 0

/-- An item of a select list: an expression, or the first characters of a column. -/
inductive SelectItem
  | expr (e : Expr)
  | prefixSlice (col : Nat) (len : Bytes)

/-- The counters of a select list. -/
structure SelectState extends LowerState where
  nextStringSlot : Nat

/-- `LowerProjectionStringPrefixSlice`. -/
def lowerProjectionStringPrefixSlice (columns : Columns) (col : Nat) (len : Bytes)
    (s : SelectState) : Option (Nat × SelectState) := do
  let source ← columns col
  let value ← strtoll len
  if 16 ≤ s.nextStringSlot || source.decodeKind ≠ .stringRef || value.toInt ≤ 0 || 255 < value.toInt
  then none
  else
    let step : ProjectStep :=
      ⟨.stringPrefixSlice, source.chunkSlot, value.toInt.toNat, s.nextStringSlot, 0⟩
    some (s.nextStringSlot,
      ⟨⟨s.steps ++ [step], s.nextInt64Slot⟩, s.nextStringSlot + 1⟩)

/-- The lowering of one item, with the slot of its result. -/
def lowerSelectItem (S : ConstantSupport) (columns : Columns) :
    SelectItem → SelectState → Option (Nat × SelectState)
  | .expr e, s => (lowerOptimizerExpr S columns e s.toLowerState).map fun (_, slot, s') =>
    (slot, ⟨s', s.nextStringSlot⟩)
  | .prefixSlice col len, s => lowerProjectionStringPrefixSlice columns col len s

/-- The loop of `TranslateProjectionNode` over the select list. -/
def lowerSelectList (S : ConstantSupport) (columns : Columns) :
    List SelectItem → SelectState → Option (List Nat × SelectState)
  | [], s => some ([], s)
  | item :: items, s =>
    (lowerSelectItem S columns item s).bind fun (slot, s) =>
    (lowerSelectList S columns items s).map fun (slots, s) => (slot :: slots, s)

/-- **The lowering of a select list** over the columns of the child, from the first slots that are
free. -/
def lowerSelect (S : ConstantSupport) (child : List SourceColumn) (items : List SelectItem) :
    Option (List Nat × List ProjectStep) :=
  (lowerSelectList S (child[·]?) items
    ⟨⟨[], nextFreeInt64Slot child⟩, nextFreeStringSlot child⟩).map fun (slots, s) => (slots, s.steps)

end ProjectionLowering
end PgYaap
