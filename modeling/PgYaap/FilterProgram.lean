import Mathlib
import PgYaap.SqlLogic

/-! # Lowering predicates to filter programs

A filter program is a list of steps over the inputs of a row and at most sixty-four
boolean registers. The translator appends to it while it goes through a predicate:
one step for a comparison, one more for each connective, every step with a register
of its own. This module follows the lowering for scans and standalone filters
(`LowerScanFilters`) and the evaluation by the standalone filter
(`PhysicalFilter::Execute`).

A column is known by its number; the schema gives its type. Operands are columns and
literals: casts, folded arithmetic, `prefix_slice` and `ANY`/`ALL` over arrays are not
followed. A string constant stands in its step as bytes: the code keeps up to eight of
them in the step and more in a pool. -/
namespace PgYaap
namespace FilterProgram
open SqlLogic

/-! ## Columns and rows -/

/-- `ColumnDecodeKind`: how a column is stored in a chunk. -/
inductive ColumnDecodeKind
  | int32Char
  | int32Date
  | int32Int4
  | int64Int8
  | int64NumericScaled
  | doubleFloat8
  | stringRef
  deriving DecidableEq, Repr

/-- `HashJoinOutputSide`. -/
inductive HashJoinOutputSide
  | left
  | right
  deriving DecidableEq, Repr

structure ColumnSchema where
  typeOid : Nat
  typmod : Int
  decodeKind : ColumnDecodeKind
  /-- The input of a join that has the column. -/
  side : HashJoinOutputSide

/-- The columns by number. -/
abbrev Schema := Nat → Option ColumnSchema

/-- `ExtractNumericTypmodScale`. -/
def extractNumericTypmodScale (typmod : Int) : Int :=
  if typmod < 4 then 0 else ((((typmod - 4).toNat &&& 0x7ff) ^^^ 1024 : Nat) : Int) - 1024

/-- A conversion to `int8_t`. -/
def toInt8 (v : Int) : Int := v.bmod 256

/-- `ColumnNumericScale`: a numeric column without a type modifier has scale two. -/
def columnNumericScale (col : ColumnSchema) : Int :=
  if col.decodeKind = .int64NumericScaled then
    if 4 ≤ col.typmod then toInt8 (extractNumericTypmodScale col.typmod) else 2
  else 0

/-- The scale a column is registered with as an input. -/
def inputScale (col : ColumnSchema) : Nat := (columnNumericScale col).toNat

/-- A value with its null flag: the slot of a NULL has some value, too. -/
structure Cell (α : Type) where
  value : α
  isNull : Bool

/-- What `store_string_bytes` stores: more than 65536 bytes are an error. -/
abbrev StoredString := {s : Bytes // s.length ≤ 65536}

/-- A row of column values, by column number and storage. -/
structure Row where
  char : Nat → Cell UInt8
  int32 : Nat → Cell Int32
  int64 : Nat → Cell Int64
  string : Nat → Cell StoredString

def Row.isNull (row : Row) (col : Nat) : ColumnDecodeKind → Bool
  | .int32Char => (row.char col).isNull
  | .int32Date | .int32Int4 => (row.int32 col).isNull
  | .int64Int8 | .int64NumericScaled | .doubleFloat8 => (row.int64 col).isNull
  | .stringRef => (row.string col).isNull

/-- A character is decoded as an unsigned byte. -/
def Row.getInt32 (row : Row) (col : Nat) : ColumnDecodeKind → Int32
  | .int32Char => Int32.ofNat (row.char col).value.toNat
  | _ => (row.int32 col).value

/-! ## Predicates -/

/-- The comparison functions by name: `<`, `<=`, `=`, `>=`, `>`, `<>` or `!=`, `~~` and
`!~~`. -/
inductive CompareName
  | lt
  | le
  | eq
  | ge
  | gt
  | ne
  | like
  | notLike
  deriving DecidableEq, Repr

inductive Operand
  | column (col : Nat)
  /-- A literal by its text, or NULL. -/
  | constant (value : Option Bytes)
  deriving DecidableEq, Repr

structure Compare where
  name : CompareName
  left : Operand
  right : Operand
  deriving DecidableEq, Repr

inductive BoolExprType
  | and
  | or
  deriving DecidableEq, Repr

inductive Expr
  | compare (c : Compare)
  | not (child : Expr)
  | bool (type : BoolExprType) (children : List Expr)

/-! ## Steps -/

inductive QualOp
  | le
  | lt
  | eq
  | ge
  | gt
  | ne
  deriving DecidableEq, Repr

/-- The `switch` over a comparison operator, on how the operands compare. -/
def QualOp.holds : QualOp → Ordering → Bool
  | .le, o => o != .gt
  | .lt, o => o == .lt
  | .eq, o => o == .eq
  | .ge, o => o != .lt
  | .gt, o => o == .gt
  | .ne, o => o != .eq

/-- The tests of a string against a constant. -/
inductive StringTest
  | eqConst
  | neConst
  | prefixLike
  | containsLike
  | sqlLike
  deriving DecidableEq, Repr

/-- A step that tests inputs. -/
inductive FilterTest (α : Type)
  | int32CmpConst (cmpOp : QualOp) (left : α) (value : Int32)
  | int64CmpConst (cmpOp : QualOp) (left : α) (value : Int64)
  | int32CmpVar (cmpOp : QualOp) (left right : α)
  | int64CmpVar (cmpOp : QualOp) (left right : α)
  | stringConst (op : StringTest) (left : α) (bytes : Bytes)
  deriving DecidableEq, Repr

/-- `FilterStepOp` with the operands of a step: inputs for a test, registers for a
connective. -/
inductive FilterStepOp
  | test (t : FilterTest Nat)
  | boolAnd (left right : Nat)
  | boolOr (left right : Nat)
  | boolNot (left : Nat)
  deriving DecidableEq, Repr

structure FilterStep where
  op : FilterStepOp
  outBoolReg : Nat
  deriving DecidableEq, Repr

/-- `FilterInputDesc`: a column, how the test wants it and how it is stored. -/
structure FilterInputDesc where
  attno : Nat
  decodeKind : ColumnDecodeKind
  sourceDecodeKind : ColumnDecodeKind
  numericScale : Nat
  deriving DecidableEq, Repr

structure FilterExprDesc where
  firstStepIdx : Nat
  nSteps : Nat
  outputBoolReg : Nat
  deriving DecidableEq, Repr

/-- `FILTER_MAX_INPUTS`. -/
abbrev filterMaxInputs : Nat := 16

/-- `FILTER_MAX_BOOL_REGS`. -/
abbrev filterMaxBoolRegs : Nat := 64

/-! ## Constants -/

/-- The functions of the server that read a constant's text, and the order of its
string types. A reader that raises an error has no value. -/
structure TypeSupport where
  int4In : Bytes → Option Int32
  int8In : Bytes → Option Int64
  dateIn : Bytes → Option Int32
  numericIn : Bytes → Option ℚ
  /-- By type and type modifier. -/
  stringIn : Nat → Int → Bytes → Option Bytes
  stringCmp : Nat → Bytes → Bytes → Ordering

def fitsInt64 (v : Int) : Bool := -2 ^ 63 ≤ v && v < 2 ^ 63

/-- `Pow10Int64`. -/
def pow10Int64 (exp : Int) : Option Int :=
  if exp < 0 ∨ 18 < exp then none else some (10 ^ exp.toNat)

/-- How `numeric_int8` rounds: to the nearest integer, halves away from zero. -/
def roundHalfAway (q : ℚ) : Int := if 0 ≤ q then ⌊q + 1 / 2⌋ else -⌊-q + 1 / 2⌋

/-- `ScaleNumericConstantToTargetScale`. -/
def scaleNumericConstantToTargetScale (T : TypeSupport) (text : Bytes) (targetScale : Int) :
    Option Int64 := do
  let value ← T.numericIn text
  let factor ← pow10Int64 targetScale
  let scaled := roundHalfAway (value * factor)
  if fitsInt64 scaled then some (Int64.ofInt scaled) else none

/-- `ExtractCharFilterConst`: the first byte. -/
def extractCharFilterConst : Bytes → Option UInt8
  | [] => none
  | c :: _ => some c

/-- `TryExtractLikePattern`: a string to look for, at the front or anywhere. -/
def tryExtractLikePattern (pattern : Bytes) : Option (Bool × Bytes) :=
  let firstPct := pattern.idxOf percent
  if underscore ∈ pattern then none
  else if percent ∉ pattern then some (true, pattern)
  else if percent ∉ pattern.drop (firstPct + 1) ∧ firstPct = pattern.length - 1 then
    some (true, pattern.take (pattern.length - 1))
  else if percent ∉ pattern.drop (firstPct + 1) ∧ firstPct = 0 then
    let text := pattern.drop 1
    if text ≠ [] ∧ percent ∉ text then some (false, text) else none
  else
    let text := (pattern.drop 1).take (pattern.length - 2)
    if 2 ≤ pattern.length ∧ pattern.head? = some percent ∧ pattern.getLast? = some percent ∧
        percent ∉ text then
      if text ≠ [] then some (false, text) else none
    else none

/-! ## Lowering a comparison -/

/-- `IsComparisonName` and `MapComparisonNameToQualOp`: a LIKE has no comparison
operator. -/
def mapComparisonNameToQualOp : CompareName → Option QualOp
  | .le => some .le
  | .lt => some .lt
  | .eq => some .eq
  | .ge => some .ge
  | .gt => some .gt
  | .ne => some .ne
  | .like | .notLike => none

/-- An input a test asks for: a column as it is stored, or promoted to a scaled
numeric. -/
inductive InputRequest
  | own (col : Nat)
  | promoted (col : Nat) (targetScale : Nat)
  deriving DecidableEq, Repr

/-- The LIKE branch of `build_const`. -/
def buildLikeTest (col : Nat) (pattern : Bytes) : Option (FilterTest InputRequest) :=
  match tryExtractLikePattern pattern with
  | some (true, text) => some (.stringConst .prefixLike (.own col) text)
  | some (false, text) => some (.stringConst .containsLike (.own col) text)
  | none =>
      if underscore ∈ pattern then none else some (.stringConst .sqlLike (.own col) pattern)

/-- `build_const`: a column against a literal, by the column's kind. -/
def buildConst (T : TypeSupport) (schema : Schema) (name : CompareName) (col : Nat)
    (constant : Option Bytes) : Option (FilterTest InputRequest) := do
  let s ← schema col
  let text ← constant
  match s.decodeKind with
  | .int32Date => do
      let value ← T.dateIn text
      let cmpOp ← mapComparisonNameToQualOp name
      some (.int32CmpConst cmpOp (.own col) value)
  | .int32Int4 => do
      let value ← T.int4In text
      let cmpOp ← mapComparisonNameToQualOp name
      some (.int32CmpConst cmpOp (.own col) value)
  | .int32Char => do
      let ch ← extractCharFilterConst text
      let cmpOp ← mapComparisonNameToQualOp name
      some (.int32CmpConst cmpOp (.own col) (Int32.ofNat ch.toNat))
  | .int64Int8 => do
      let value ← T.int8In text
      let cmpOp ← mapComparisonNameToQualOp name
      some (.int64CmpConst cmpOp (.own col) value)
  | .int64NumericScaled => do
      -- The scale is taken from the type modifier alone: without one it is zero here.
      let scale := toInt8 (extractNumericTypmodScale s.typmod)
      let value ← scaleNumericConstantToTargetScale T text scale
      let cmpOp ← mapComparisonNameToQualOp name
      some (.int64CmpConst cmpOp (.own col) value)
  | .stringRef =>
      match name with
      | .eq => do
          let bytes ← T.stringIn s.typeOid s.typmod text
          some (.stringConst .eqConst (.own col) bytes)
      | .ne => do
          let bytes ← T.stringIn s.typeOid s.typmod text
          some (.stringConst .neConst (.own col) bytes)
      | .like | .notLike => buildLikeTest col text
      | _ => none
  | .doubleFloat8 => none

/-- The comparison turned round, for a literal on the left. -/
def mirrorCmpOp (name : CompareName) (cmpOp : QualOp) : QualOp :=
  match name with
  | .lt => .gt
  | .le => .ge
  | .gt => .lt
  | .ge => .le
  | _ => cmpOp

def FilterTest.mirror {α : Type} (name : CompareName) : FilterTest α → FilterTest α
  | .int32CmpConst cmpOp left value => .int32CmpConst (mirrorCmpOp name cmpOp) left value
  | .int64CmpConst cmpOp left value => .int64CmpConst (mirrorCmpOp name cmpOp) left value
  | t => t

/-- `is_numeric_family`. -/
def isNumericFamily : ColumnDecodeKind → Bool
  | .int32Int4 | .int64Int8 | .int64NumericScaled => true
  | _ => false

/-- A column against a column. Columns of different kinds are promoted to the scale that
`targetScale` gives for them. -/
def buildVar (targetScale : ColumnSchema → ColumnSchema → Nat) (schema : Schema)
    (name : CompareName) (left right : Nat) : Option (FilterTest InputRequest) := do
  let l ← schema left
  let r ← schema right
  let cmpOp ← mapComparisonNameToQualOp name
  if l.decodeKind ≠ r.decodeKind then
    if isNumericFamily l.decodeKind && isNumericFamily r.decodeKind then
      some (.int64CmpVar cmpOp (.promoted left (targetScale l r)) (.promoted right (targetScale l r)))
    else none
  else match l.decodeKind with
    | .int32Date | .int32Int4 | .int32Char => some (.int32CmpVar cmpOp (.own left) (.own right))
    | .int64Int8 | .int64NumericScaled => some (.int64CmpVar cmpOp (.own left) (.own right))
    | .stringRef | .doubleFloat8 => none

/-- The test a comparison is lowered to. -/
def compareTest (T : TypeSupport) (targetScale : ColumnSchema → ColumnSchema → Nat)
    (schema : Schema) (c : Compare) : Option (FilterTest InputRequest) :=
  match c.left, c.right with
  | .column col, .constant value => buildConst T schema c.name col value
  | .constant value, .column col => (buildConst T schema c.name col value).map (.mirror c.name)
  | .column left, .column right => buildVar targetScale schema c.name left right
  | .constant _, .constant _ => none

/-- The target scale of a scan or a filter: the larger one. -/
def scanTargetScale (l r : ColumnSchema) : Nat :=
  (max (columnNumericScale l) (columnNumericScale r)).toNat

/-! ## Inputs -/

/-- The description of a column as it is stored. -/
def ownDesc (col : Nat) (s : ColumnSchema) : FilterInputDesc :=
  ⟨col, s.decodeKind, s.decodeKind, inputScale s⟩

/-- The description of a promoted column: a numeric keeps its scale. -/
def promotedDesc (col : Nat) (s : ColumnSchema) (targetScale : Nat) : FilterInputDesc :=
  ⟨col, .int64NumericScaled, s.decodeKind,
    if s.decodeKind = .int64NumericScaled then inputScale s else targetScale⟩

/-- `LookupOrAddScanFilterInput`. -/
def lookupOrAddScanFilterInput (col : Nat) (s : ColumnSchema) (inputs : List FilterInputDesc) :
    Option (Nat × List FilterInputDesc) :=
  match inputs.findIdx? (fun d => d.attno == col && d.decodeKind == s.decodeKind &&
      d.sourceDecodeKind == s.decodeKind) with
  | some i => some (i, inputs)
  | none =>
      if filterMaxInputs ≤ inputs.length then none
      else some (inputs.length, inputs ++ [ownDesc col s])

/-- `LookupOrAddScanFilterInputAs`: the limit is checked before the search. -/
def lookupOrAddScanFilterInputAs (col : Nat) (s : ColumnSchema) (targetScale : Nat)
    (inputs : List FilterInputDesc) : Option (Nat × List FilterInputDesc) :=
  if filterMaxInputs ≤ inputs.length then none
  else match inputs.findIdx? (· == promotedDesc col s targetScale) with
    | some i => some (i, inputs)
    | none => some (inputs.length, inputs ++ [promotedDesc col s targetScale])

/-- The input of a scan or a filter for a request. -/
def scanInput (schema : Schema) (request : InputRequest) (inputs : List FilterInputDesc) :
    Option (Nat × List FilterInputDesc) :=
  match request with
  | .own col => do lookupOrAddScanFilterInput col (← schema col) inputs
  | .promoted col targetScale => do
      lookupOrAddScanFilterInputAs col (← schema col) targetScale inputs

/-- The inputs of a test, left before right. -/
def FilterTest.register
    (input : InputRequest → List FilterInputDesc → Option (Nat × List FilterInputDesc)) :
    FilterTest InputRequest → List FilterInputDesc → Option (FilterTest Nat × List FilterInputDesc)
  | .int32CmpConst cmpOp left value, inputs => do
      let (l, inputs) ← input left inputs
      some (.int32CmpConst cmpOp l value, inputs)
  | .int64CmpConst cmpOp left value, inputs => do
      let (l, inputs) ← input left inputs
      some (.int64CmpConst cmpOp l value, inputs)
  | .int32CmpVar cmpOp left right, inputs => do
      let (l, inputs) ← input left inputs
      let (r, inputs) ← input right inputs
      some (.int32CmpVar cmpOp l r, inputs)
  | .int64CmpVar cmpOp left right, inputs => do
      let (l, inputs) ← input left inputs
      let (r, inputs) ← input right inputs
      some (.int64CmpVar cmpOp l r, inputs)
  | .stringConst op left bytes, inputs => do
      let (l, inputs) ← input left inputs
      some (.stringConst op l bytes, inputs)

/-! ## Lowering a predicate -/

/-- What the lowering has written so far. -/
structure LowerState where
  inputs : List FilterInputDesc
  steps : List FilterStep
  nextBoolReg : Nat

/-- A step with the next register. -/
def LowerState.push (s : LowerState) (op : FilterStepOp) : Nat × LowerState :=
  (s.nextBoolReg, ⟨s.inputs, s.steps ++ [⟨op, s.nextBoolReg⟩], s.nextBoolReg + 1⟩)

/-- `finish_step`: the negation of a LIKE is a step of its own. -/
def LowerState.finishStep (s : LowerState) (negateLike : Bool) (op : FilterStepOp) :
    Option (Nat × LowerState) :=
  if negateLike then
    if filterMaxBoolRegs ≤ (s.push op).2.nextBoolReg then none
    else some ((s.push op).2.push (.boolNot (s.push op).1))
  else some (s.push op)

/-- The lowering of one node of the plan: how it tests a comparison and registers the
inputs of a test. -/
structure Lowering where
  test : Compare → Option (FilterTest InputRequest)
  register : FilterTest InputRequest → List FilterInputDesc →
    Option (FilterTest Nat × List FilterInputDesc)

/-- `LowerScanFilterCompare` and `LowerJoinFilterCompare`. -/
def Lowering.compare (L : Lowering) (c : Compare) (s : LowerState) : Option (Nat × LowerState) := do
  let test ← L.test c
  let (t, inputs) ← L.register test s.inputs
  LowerState.finishStep { s with inputs := inputs } (c.name == .notLike) (.test t)

def BoolExprType.step : BoolExprType → Nat → Nat → FilterStepOp
  | .and => .boolAnd
  | .or => .boolOr

mutual

/-- `LowerScanFilterBoolExpr` and `LowerJoinFilterBoolExpr`. -/
def Lowering.boolExpr (L : Lowering) : Expr → LowerState → Option (Nat × LowerState)
  | .compare c, s => L.compare c s
  | .not child, s =>
      if filterMaxBoolRegs ≤ s.nextBoolReg then none
      else do
        let (out, s) ← L.boolExpr child s
        some (s.push (.boolNot out))
  | .bool _ [], _ => none
  | .bool type (child :: children), s => do
      let (left, s) ← L.boolExpr child s
      L.boolChildren type children left s

/-- The loop over the children from the second on. -/
def Lowering.boolChildren (L : Lowering) (type : BoolExprType) :
    List Expr → Nat → LowerState → Option (Nat × LowerState)
  | [], left, s => some (left, s)
  | child :: children, left, s =>
      if filterMaxBoolRegs ≤ s.nextBoolReg then none
      else do
        let (right, s) ← L.boolExpr child s
        let (out, s) := s.push (type.step left right)
        L.boolChildren type children out s

end

/-- A lowered list of filters. -/
structure Program where
  inputs : List FilterInputDesc
  exprs : List FilterExprDesc
  steps : List FilterStep
  deriving DecidableEq, Repr

/-- `AppendFilterExpr`. -/
def appendFilterExpr (exprs : List FilterExprDesc) (steps : List FilterStep) (firstStepIdx : Nat)
    (outBoolReg : Nat) : Option (List FilterExprDesc) :=
  if steps.length < firstStepIdx ∨ filterMaxInputs ≤ exprs.length then none
  else some (exprs ++ [⟨firstStepIdx, steps.length - firstStepIdx, outBoolReg⟩])

/-- The loop of `LowerScanFilters` and `LowerJoinFilters`. -/
def Lowering.filtersFrom (L : Lowering) :
    List Expr → LowerState → List FilterExprDesc → Option Program
  | [], s, exprs => some ⟨s.inputs, exprs, s.steps⟩
  | filter :: filters, s, exprs => do
      let (out, s') ← L.boolExpr filter s
      let exprs ← appendFilterExpr exprs s'.steps s.steps.length out
      L.filtersFrom filters s' exprs

def Lowering.filters (L : Lowering) (filters : List Expr) : Option Program :=
  L.filtersFrom filters ⟨[], [], 0⟩ []

/-- **The lowering for scans and standalone filters.** -/
def scanLowering (T : TypeSupport) (schema : Schema) : Lowering where
  test := compareTest T scanTargetScale schema
  register := FilterTest.register (scanInput schema)

/-- `LowerScanFilters`. -/
def lowerScanFilters (T : TypeSupport) (schema : Schema) (filters : List Expr) : Option Program :=
  (scanLowering T schema).filters filters

/-! ## Matching LIKE patterns -/

/-- One token of a pattern: the first one of an anchored pattern stands at the front, the
others are searched from the place the last one ended. -/
def matchToken (anchoredStart firstToken : Bool) (token rest : Bytes) : Option Bytes :=
  if token = [] then some rest
  else if firstToken && anchoredStart then
    if token <+: rest then some (rest.drop token.length) else none
  else afterFirst token rest

/-- The loop over the characters of a pattern, with the token so far and the text that is
left. -/
def matchTokens (anchoredStart : Bool) : Bytes → Bytes → Bool → Bytes → Option Bytes
  | [], token, firstToken, rest => matchToken anchoredStart firstToken token rest
  | c :: pattern, token, firstToken, rest =>
      if c = percent then do
        let rest ← matchToken anchoredStart firstToken token rest
        matchTokens anchoredStart pattern [] (firstToken && token.isEmpty) rest
      else matchTokens anchoredStart pattern (token ++ [c]) firstToken rest

/-- `MatchPercentLikePattern` of the standalone filter. After the loop `token_start` is
one behind the end of the pattern, and the length of the trailing text is computed in
`uint32_t`. -/
def matchPercentLikePattern (lhs pattern : Bytes) : Bool :=
  if pattern = [] then lhs.isEmpty
  else match matchTokens (pattern.head? != some percent) pattern [] true lhs with
    | none => false
    | some _ =>
        if pattern.getLast? != some percent then
          let tokenStart := pattern.length + 1
          let trailingLen := (pattern.length + 2 ^ 32 - tokenStart) % 2 ^ 32
          if lhs.length < trailingLen then false
          else (lhs.drop (lhs.length - trailingLen)).take trailingLen ==
            (pattern.drop tokenStart).take trailingLen
        else true

/-! ## Evaluating a test -/

inductive FilterError
  | outOfBounds
  | rescaleFailed
  deriving DecidableEq, Repr

/-- `RescaleNumericForCompare`. -/
def rescaleNumericForCompare (value : Int64) (fromScale toScale : Nat) : Option Int64 :=
  if fromScale = toScale then some value
  else if toScale < fromScale ∨ 18 < toScale - fromScale then none
  else
    let widened := value.toInt * 10 ^ (toScale - fromScale)
    if fitsInt64 widened then some (Int64.ofInt widened) else none

/-- What an evaluator finds for an input, and how it compares. -/
structure Evaluator where
  isNull : FilterInputDesc → Bool
  int32 : FilterInputDesc → Int32
  int64 : FilterInputDesc → Int64
  string : FilterInputDesc → Bytes
  /-- `INT64_CMP_VAR` brings two scaled numerics to one scale. -/
  rescales : Bool
  matchPercentLike : Bytes → Bytes → Bool

def Evaluator.evalString (E : Evaluator) (op : StringTest) (lhs bytes : Bytes) : Bool :=
  match op with
  | .eqConst => lhs == bytes
  | .neConst => lhs != bytes
  | .prefixLike => bytes.isPrefixOf lhs
  | .containsLike => lhs.tails.any (bytes.isPrefixOf ·)
  | .sqlLike => E.matchPercentLike lhs bytes

/-- The test branches of `EvalFilterStep`; a NULL input makes a test false. -/
def Evaluator.evalTest (E : Evaluator) : FilterTest FilterInputDesc → Except FilterError Bool
  | .int32CmpConst cmpOp left value =>
      .ok (!E.isNull left && cmpOp.holds (compare (E.int32 left).toInt value.toInt))
  | .int64CmpConst cmpOp left value =>
      .ok (!E.isNull left && cmpOp.holds (compare (E.int64 left).toInt value.toInt))
  | .int32CmpVar cmpOp left right =>
      .ok (!(E.isNull left || E.isNull right) &&
        cmpOp.holds (compare (E.int32 left).toInt (E.int32 right).toInt))
  | .int64CmpVar cmpOp left right =>
      if E.isNull left || E.isNull right then .ok false
      else if E.rescales && left.decodeKind == .int64NumericScaled &&
          right.decodeKind == .int64NumericScaled then
        let targetScale := max left.numericScale right.numericScale
        match rescaleNumericForCompare (E.int64 left) left.numericScale targetScale,
            rescaleNumericForCompare (E.int64 right) right.numericScale targetScale with
        | some l, some r => .ok (cmpOp.holds (compare l.toInt r.toInt))
        | _, _ => .error .rescaleFailed
      else .ok (cmpOp.holds (compare (E.int64 left).toInt (E.int64 right).toInt))
  | .stringConst op left bytes => .ok (!E.isNull left && E.evalString op (E.string left) bytes)

/-! ## Running a program -/

/-- A test with its inputs looked up. -/
def FilterTest.lookup {α β : Type} (f : α → Option β) : FilterTest α → Option (FilterTest β)
  | .int32CmpConst cmpOp left value => do some (.int32CmpConst cmpOp (← f left) value)
  | .int64CmpConst cmpOp left value => do some (.int64CmpConst cmpOp (← f left) value)
  | .int32CmpVar cmpOp left right => do some (.int32CmpVar cmpOp (← f left) (← f right))
  | .int64CmpVar cmpOp left right => do some (.int64CmpVar cmpOp (← f left) (← f right))
  | .stringConst op left bytes => do some (.stringConst op (← f left) bytes)

/-- `bool_values`. -/
abbrev BoolRegs := Nat → Bool

def readReg (regs : BoolRegs) (r : Nat) : Except FilterError Bool :=
  if r < filterMaxBoolRegs then .ok (regs r) else .error .outOfBounds

def writeReg (regs : BoolRegs) (r : Nat) (b : Bool) : Except FilterError BoolRegs :=
  if r < filterMaxBoolRegs then .ok (Function.update regs r b) else .error .outOfBounds

def Evaluator.evalIndexedTest (E : Evaluator) (inputs : List FilterInputDesc) (t : FilterTest Nat) :
    Except FilterError Bool :=
  match t.lookup (inputs[·]?) with
  | none => .error .outOfBounds
  | some t => E.evalTest t

/-- The value a step computes. -/
def Evaluator.evalOp (E : Evaluator) (inputs : List FilterInputDesc) (regs : BoolRegs) :
    FilterStepOp → Except FilterError Bool
  | .test t => E.evalIndexedTest inputs t
  | .boolAnd left right => do
      let l ← readReg regs left
      let r ← readReg regs right
      .ok (l && r)
  | .boolOr left right => do
      let l ← readReg regs left
      let r ← readReg regs right
      .ok (l || r)
  | .boolNot left => do
      let l ← readReg regs left
      .ok (!l)

/-- `EvalFilterStepAtRow`. -/
def Evaluator.evalFilterStep (E : Evaluator) (inputs : List FilterInputDesc) (regs : BoolRegs)
    (step : FilterStep) : Except FilterError BoolRegs := do
  let result ← E.evalOp inputs regs step.op
  writeReg regs step.outBoolReg result

def Evaluator.evalSteps (E : Evaluator) (inputs : List FilterInputDesc) (steps : List FilterStep)
    (regs : BoolRegs) : Except FilterError BoolRegs :=
  steps.foldlM (E.evalFilterStep inputs) regs

/-- The loop over the expressions of a row: the first one that is false ends it. -/
def Evaluator.evalExprs (E : Evaluator) (prog : Program) (boolRegs : Nat) :
    List FilterExprDesc → BoolRegs → Except FilterError Bool
  | [], _ => .ok true
  | expr :: exprs, regs =>
      if prog.steps.length < expr.firstStepIdx + expr.nSteps then .error .outOfBounds
      else do
        let regs ← E.evalSteps prog.inputs ((prog.steps.drop expr.firstStepIdx).take expr.nSteps) regs
        if boolRegs ≤ expr.outputBoolReg ∨ regs expr.outputBoolReg = false then .ok false
        else E.evalExprs prog boolRegs exprs regs

/-- `RequiredFilterBoolRegs`. -/
def requiredFilterBoolRegs (exprs : List FilterExprDesc) : Nat :=
  exprs.foldl (fun maxReg expr => max maxReg (expr.outputBoolReg + 1)) 0

/-- `IsSimpleFilterStep`: a single test needs no register. -/
def simpleFilterStep (prog : Program) : Option (FilterTest Nat) :=
  match prog.exprs with
  | [expr] =>
      if expr.nSteps = 1 then
        match prog.steps[expr.firstStepIdx]? with
        | some ⟨.test t, out⟩ => if expr.outputBoolReg = out then some t else none
        | _ => none
      else none
  | _ => none

/-- The registers cleared for a row, and the expressions evaluated: `memset` writes as
many registers as the expressions need, whether there are as many or not. -/
def Evaluator.evalGeneral (E : Evaluator) (prog : Program) (boolRegs : Nat) :
    Except FilterError Bool :=
  if filterMaxBoolRegs < requiredFilterBoolRegs prog.exprs then .error .outOfBounds
  else E.evalExprs prog boolRegs prog.exprs (fun _ => false)

/-- **`PhysicalFilter::Execute` on one row.** -/
def Evaluator.execute (E : Evaluator) (prog : Program) : Except FilterError Bool :=
  if prog.exprs = [] then .ok true
  else match simpleFilterStep prog with
    | some t => E.evalIndexedTest prog.inputs t
    | none => E.evalGeneral prog filterMaxBoolRegs

/-! ## The standalone filter -/

/-- An integer promoted to a scaled numeric, in `int64_t` arithmetic that wraps. -/
def promoteInt64 (value : Int) (scale : Nat) : Int64 := Int64.ofInt (value * 10 ^ scale)

/-- `PopulateFilterChunk`: the value of an input on a row. -/
def populateInt64 (row : Row) (input : FilterInputDesc) : Int64 :=
  match input.decodeKind, input.sourceDecodeKind with
  | .int64NumericScaled, .int32Int4 | .int64NumericScaled, .int32Char
  | .int64NumericScaled, .int32Date =>
      promoteInt64 (row.getInt32 input.attno input.sourceDecodeKind).toInt input.numericScale
  | .int64NumericScaled, .int64Int8 =>
      promoteInt64 (row.int64 input.attno).value.toInt input.numericScale
  | .int64Int8, .int32Int4 | .int64Int8, .int32Char | .int64Int8, .int32Date =>
      (row.getInt32 input.attno input.sourceDecodeKind).toInt64
  | _, _ => (row.int64 input.attno).value

/-- **The standalone filter on a row.** -/
def filterEvaluator (row : Row) : Evaluator where
  isNull input := row.isNull input.attno input.sourceDecodeKind
  int32 input := row.getInt32 input.attno input.sourceDecodeKind
  int64 := populateInt64 row
  string input := (row.string input.attno).value.val
  rescales := true
  matchPercentLike := matchPercentLikePattern

end FilterProgram
end PgYaap
