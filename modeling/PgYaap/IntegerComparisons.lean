import PgYaap.FilterAgreement
import PgYaap.ProjectionLowering

/-! # Comparisons of integers for comparisons of values

Columns of integers, numerics, dates and single characters are compared as integers: with a constant
that has been read with the column's type, or rounded to the scale of its type modifier, or cut to
its first byte, or with another column, at one scale or not. Arithmetic between constants is folded
before in `long double`, printed with twenty-four digits and read again; a date is shifted by
intervals with the server's functions, and has to be one in the end.

An integer comparison is right on a stored value when the value is on the same side of the constant
that is used and of the exact one. A rounded constant is wrong on the value it is rounded to only,
and there for the operators that the rounding has taken to the other side. -/
namespace PgYaap
namespace IntegerComparisons

open FilterProgram SqlLogic
open ProjectionLowering (ConstantSupport)
open ProjectionSteps (ArithOp)

/-! ## Constant expressions -/

/-- `long double`: `strtold`, its operations, and the text with twenty-four digits. -/
structure LongDouble (D : Type) where
  strtold : Bytes → Option D
  add : D → D → D
  sub : D → D → D
  mul : D → D → D
  text : D → Bytes

/-- Constants under arithmetic operators. -/
inductive ConstExpr
  | literal (value : Option Bytes)
  | binary (op : ArithOp) (left right : ConstExpr)

/-- The server's functions for constants: the readers, `date_pl_interval` and `date_mi_interval` on
the timestamp of a date and the text of an interval, and `long double`. -/
structure ConstantFunctions (D : Type) extends ConstantSupport where
  shift : ArithOp → Int → Bytes → Option Int64
  longDouble : LongDouble D

def LongDouble.operation {D : Type} (L : LongDouble D) : ArithOp → Option (D → D → D)
  | .add => some L.add
  | .sub => some L.sub
  | .mul => some L.mul
  | .div => none

section Constants

variable {D : Type} (S : ConstantFunctions D)

/-- `FoldNumericConstantExpression`. -/
def foldNumericConstantExpression : ConstExpr → Option (Option Bytes)
  | .literal value => some value
  | .binary op left right => do
    let left ← foldNumericConstantExpression left
    let right ← foldNumericConstantExpression right
    let l ← left.bind S.longDouble.strtold
    let r ← right.bind S.longDouble.strtold
    let operation ← S.longDouble.operation op
    some (some (S.longDouble.text (operation l r)))

/-- `USECS_PER_DAY`. -/
abbrev usecsPerDay : Int := 86400000000

/-- `EvaluateDateExpression`. -/
def evaluateDateExpression : ConstExpr → Option Int32
  | .literal value => value.bind S.dateIn
  | .binary op base (.literal interval) =>
    if op = .add ∨ op = .sub then do
      let base ← evaluateDateExpression base
      let ts ← S.shift op (base.toInt * usecsPerDay) (← interval)
      if ts.toInt % usecsPerDay ≠ 0 then none else some (Int32.ofInt (ts.toInt / usecsPerDay))
    else none
  | .binary _ _ (.binary _ _ _) => none

/-- The number a constant expression stands for. -/
def ConstExpr.number : ConstExpr → Option ℚ
  | .literal value => value.bind S.numericIn
  | .binary op left right => do
    let l ← left.number
    let r ← right.number
    match op with
    | .add => some (l + r)
    | .sub => some (l - r)
    | .mul => some (l * r)
    | .div => none

/-- The timestamp it stands for, if it is a date that is shifted. -/
def ConstExpr.timestamp : ConstExpr → Option Int
  | .literal value => (value.bind S.dateIn).map fun day => day.toInt * usecsPerDay
  | .binary op base (.literal interval) =>
    if op = .add ∨ op = .sub then do
      let base ← base.timestamp
      (S.shift op base (← interval)).map Int64.toInt
    else none
  | .binary _ _ (.binary _ _ _) => none

end Constants

/-! ## Comparisons and the tests they are lowered to -/

/-- A column against a constant, which stands on the left for `flip`, or against a column. -/
inductive Comparison
  | constant (flip : Bool) (name : CompareName) (col : Nat) (e : ConstExpr)
  | columns (name : CompareName) (left right : Nat)

/-- Where a comparison is evaluated, for a scan with what stands in its scratch chunk. -/
inductive Place
  | scan (scratch : FilterInputDesc → Int64)
  | filter
  | join

def Place.evaluator (row : Row) : Place → Evaluator
  | .scan scratch => scanEvaluator scratch row
  | .filter => filterEvaluator row
  | .join => joinEvaluator row

section Lowering

variable {D : Type} (S : ConstantFunctions D) (schema : Schema)

/-- `build_const` of `LowerScanFilterCompare`. -/
def buildScanConst (name : CompareName) (col : Nat) (e : ConstExpr) :
    Option (FilterTest InputRequest) := do
  let s ← schema col
  if s.decodeKind = .int32Date then
    let value ← evaluateDateExpression S e
    let cmpOp ← mapComparisonNameToQualOp name
    some (.int32CmpConst cmpOp (.own col) value)
  else
    (foldNumericConstantExpression S e).bind (buildConst S.toTypeSupport schema name col)

/-- `build_const` of `LowerJoinFilterCompare`: a date is read from what has been folded, too. -/
def buildJoinConst (name : CompareName) (col : Nat) (e : ConstExpr) :
    Option (FilterTest InputRequest) :=
  (foldNumericConstantExpression S e).bind (buildConst S.toTypeSupport schema name col)

/-- The test of a comparison. -/
def Place.test (place : Place) (c : Comparison) : Option (FilterTest InputRequest) :=
  match place, c with
  | .join, .constant flip name col e =>
    (buildJoinConst S schema name col e).map (orientTest flip name)
  | .join, .columns name left right => buildVar (fun _ _ => 0) schema name left right
  | _, .constant flip name col e => (buildScanConst S schema name col e).map (orientTest flip name)
  | _, .columns name left right => buildVar scanTargetScale schema name left right

/-- What the test answers on a row. -/
def Place.answer (row : Row) (place : Place) (c : Comparison) :
    Option (Except FilterError Bool) := do
  let t ← place.test S schema c
  let td ← t.lookup (requestDesc schema)
  some ((place.evaluator row).evalTest td)

end Lowering

/-! ## The SQL value -/

/-- The characters that a row holds the first bytes of. -/
structure StoredChars (row : Row) where
  text : Nat → Bytes
  first : ∀ col, (text col).head? = some (row.char col).value

section Sql

variable {D : Type} (S : ConstantFunctions D) (schema : Schema) {row : Row}

/-- How the value of a column compares with a constant. -/
def constantOrder (chars : StoredChars row) (s : ColumnSchema) (flip : Bool) (col : Nat)
    (e : ConstExpr) : Option Ordering :=
  match s.decodeKind with
  | .int32Date =>
    let ts : Int := (row.int32 col).value.toInt * usecsPerDay
    (e.timestamp S).map fun value => orient flip (compare ts value)
  | .int32Int4 | .int64Int8 | .int64NumericScaled =>
    (e.number S).map fun q => orient flip (compare (storedNumber row col s) q)
  | .int32Char =>
    match e with
    | .literal (some text) => some (S.stringCmp s.typeOid
        (if flip then text else chars.text col) (if flip then chars.text col else text))
    | _ => none
  | .stringRef | .doubleFloat8 => none

/-- How the values of two columns compare. -/
def columnOrder (chars : StoredChars row) (sl sr : ColumnSchema) (left right : Nat) :
    Option Ordering :=
  if isNumericFamily sl.decodeKind && isNumericFamily sr.decodeKind then
    some (compare (storedNumber row left sl) (storedNumber row right sr))
  else
    match sl.decodeKind, sr.decodeKind with
    | .int32Date, .int32Date =>
      some (compare (row.int32 left).value.toInt (row.int32 right).value.toInt)
    | .int32Char, .int32Char => some (S.stringCmp sl.typeOid (chars.text left) (chars.text right))
    | _, _ => none

def Comparison.order (chars : StoredChars row) : Comparison → Option Ordering
  | .constant flip _ col e => (schema col).bind fun s => constantOrder S chars s flip col e
  | .columns _ left right => (schema left).bind fun sl => (schema right).bind fun sr =>
    columnOrder S chars sl sr left right

def Comparison.name : Comparison → CompareName
  | .constant _ name _ _ => name
  | .columns name _ _ => name

/-- **The SQL value of a comparison** of values that are not NULL. -/
def Comparison.sql (chars : StoredChars row) (c : Comparison) : Option Bool := do
  let cmpOp ← mapComparisonNameToQualOp c.name
  (Comparison.order S schema chars c).map cmpOp.holds

/-- No operand is NULL. -/
def Comparison.Stored (row : Row) : Comparison → Prop
  | .constant _ _ col _ => ∀ s, schema col = some s → row.isNull col s.decodeKind = false
  | .columns _ left right =>
    (∀ s, schema left = some s → row.isNull left s.decodeKind = false) ∧
      ∀ s, schema right = some s → row.isNull right s.decodeKind = false

end Sql

/-! ## When a comparison of integers is right -/

/-- A value is on the same side of two numbers, as far as an operator tells. -/
def SameSide (op : QualOp) (v a b : ℚ) : Prop :=
  match op with
  | .le | .gt => v ≤ a ↔ v ≤ b
  | .lt | .ge => v < a ↔ v < b
  | .eq | .ne => v = a ↔ v = b

/-- **When rounding does no harm to a comparison**: the value is not what the constant is rounded to,
or the constant is an integer, or it is rounded towards where the operator holds or fails anyway. -/
def RoundsRight (op : QualOp) (v : Int) (x : ℚ) : Prop :=
  v = roundHalfAway x → x = roundHalfAway x ∨ (roundHalfAway x < x ∧ (op = .le ∨ op = .gt)) ∨
    (x < roundHalfAway x ∧ (op = .lt ∨ op = .ge))

theorem holds_iff_sameSide (op : QualOp) (v a b : ℚ) :
    op.holds (compare v a) = op.holds (compare v b) ↔ SameSide op v a b := by
  rw [Bool.eq_iff_iff]
  cases op <;>
    simp [QualOp.holds, SameSide, compare_gt_iff_gt, compare_lt_iff_lt, not_iff_not, ← not_le]

theorem abs_roundHalfAway_sub_le (x : ℚ) : |(roundHalfAway x : ℚ) - x| ≤ 1 / 2 := by
  rw [roundHalfAway]
  split
  · have hle := Int.floor_le (x + 1 / 2)
    have hlt := Int.lt_floor_add_one (x + 1 / 2)
    rw [abs_le]
    constructor <;> linarith
  · have hle := Int.floor_le (-x + 1 / 2)
    have hlt := Int.lt_floor_add_one (-x + 1 / 2)
    rw [abs_le]
    push_cast
    constructor <;> linarith

/-- **A rounded constant is wrong on the value it is rounded to only.** -/
theorem sameSide_round_iff (op : QualOp) (v : Int) (x : ℚ) :
    SameSide op v (roundHalfAway x) x ↔ RoundsRight op v x := by
  have hnear := abs_le.1 (abs_roundHalfAway_sub_le x)
  rcases lt_trichotomy v (roundHalfAway x) with hlt | heq | hgt
  · -- A smaller integer is below both.
    have hint : (v : ℚ) + 1 ≤ roundHalfAway x := by exact_mod_cast hlt
    have hx : (v : ℚ) < x := by linarith
    have hk : (v : ℚ) < roundHalfAway x := by linarith
    refine iff_of_true ?_ fun h => absurd h hlt.ne
    cases op <;> simp [SameSide, hx.le, hk.le, hx, hk, hx.ne, hk.ne]
  · rw [RoundsRight, ← heq]
    rcases lt_trichotomy (v : ℚ) x with hx | hx | hx
    · cases op <;> simp [SameSide, hx, hx.le, hx.ne, hx.ne', hx.not_gt]
    · cases op <;> simp [SameSide, ← hx]
    · cases op <;> simp [SameSide, hx, hx.not_ge, hx.ne, hx.ne', hx.not_gt]
  · have hint : (roundHalfAway x : ℚ) + 1 ≤ v := by exact_mod_cast hgt
    have hx : x < (v : ℚ) := by linarith
    have hk : (roundHalfAway x : ℚ) < v := by linarith
    refine iff_of_true ?_ fun h => absurd h hgt.ne'
    cases op <;> simp [SameSide, hx.not_ge, hk.not_ge, hx.not_gt, hk.not_gt, hx.ne', hk.ne']

/-! ## The conditions -/

section Conditions

variable {D : Type} (S : ConstantFunctions D) (row : Row)

/-- The scale a constant is rounded to: that of the type modifier. -/
def typmodScale (s : ColumnSchema) : Nat := (toInt8 (extractNumericTypmodScale s.typmod)).toNat

/-- When a column against a constant that has been folded is right, by the operator as it is written
and turned round. -/
def FoldedRight (place : Place) (chars : StoredChars row) (s : ColumnSchema) (flip : Bool)
    (cmpOp op : QualOp) (col : Nat) (e : ConstExpr) (folded : Bytes) : Prop :=
  match s.decodeKind with
  | .int32Int4 | .int64Int8 => ∀ k q, S.numericIn folded = some k → e.number S = some q →
      SameSide op (storedNumber row col s) k q
  | .int64NumericScaled => ∀ k q, S.numericIn folded = some k → e.number S = some q →
      let v := (row.int64 col).value.toInt
      if k = q ∧ typmodScale s = inputScale s then RoundsRight op v (q * 10 ^ inputScale s)
      else SameSide op v (roundHalfAway (k * 10 ^ typmodScale s)) (q * 10 ^ inputScale s)
  | .int32Date =>
    match place with
    | .join => ∀ day ts, S.dateIn folded = some day → e.timestamp S = some ts →
        SameSide op ((row.int32 col).value.toInt * usecsPerDay : Int) (day.toInt * usecsPerDay : Int)
          (ts : Int)
    | _ => True
  | .int32Char => FirstBytesDecide S.toTypeSupport s.typeOid cmpOp
      (if flip then folded else chars.text col) (if flip then chars.text col else folded)
  | .stringRef | .doubleFloat8 => True

/-- **When a column against a constant is right.** What the constant has been folded to must not lie
on the other side of the value, nor what it is rounded to; a character and the first byte of the
constant must compare as the texts do. -/
def ConstantRight (place : Place) (chars : StoredChars row) (s : ColumnSchema) (flip : Bool)
    (name : CompareName) (col : Nat) (e : ConstExpr) : Prop :=
  ∀ cmpOp, mapComparisonNameToQualOp name = some cmpOp →
    ∀ folded, foldNumericConstantExpression S e = some (some folded) →
      FoldedRight S row place chars s flip cmpOp (orientOp flip name cmpOp) col e folded

/-- Both numbers fit at the larger scale. -/
def BothFit (row : Row) (sl sr : ColumnSchema) (left right : Nat) : Prop :=
  RescaleFits (integerValue row left sl.decodeKind) (inputScale sl)
      (max (inputScale sl) (inputScale sr)) ∧
    RescaleFits (integerValue row right sr.decodeKind) (inputScale sr)
      (max (inputScale sl) (inputScale sr))

/-- The integer a standalone filter compares, promoted in arithmetic that wraps. -/
def filteredInteger (col : Nat) (s : ColumnSchema) (targetScale : Nat) : Int :=
  if s.decodeKind = .int64NumericScaled then integerValue row col s.decodeKind
  else (integerValue row col s.decodeKind * 10 ^ targetScale).bmod (2 ^ 64)

/-- **When a column against a column is right.** A scan compares what stands in its slots, a filter
wraps integers at the scale of a numeric, and where two numerics are brought to one scale, as in all
comparisons of a join, both have to fit. -/
def Place.ColumnsRight (place : Place) (chars : StoredChars row) (sl sr : ColumnSchema)
    (cmpOp : QualOp) (left right : Nat) : Prop :=
  if isNumericFamily sl.decodeKind && isNumericFamily sr.decodeKind then
    let scale := max (inputScale sl) (inputScale sr)
    let numbers := cmpOp.holds (compare (storedNumber row left sl) (storedNumber row right sr))
    match place with
    | .scan scratch => cmpOp.holds (compare
        (scannedInteger scratch row left sl sr (scanTargetScale sl sr))
        (scannedInteger scratch row right sr sl (scanTargetScale sl sr))) = numbers
    | .filter =>
      if sl.decodeKind = .int64NumericScaled ∧ sr.decodeKind = .int64NumericScaled then
        BothFit row sl sr left right
      else cmpOp.holds (compare (filteredInteger row left sl scale)
        (filteredInteger row right sr scale)) = numbers
    | .join => BothFit row sl sr left right
  else sl.decodeKind = .int32Char → sr.decodeKind = .int32Char →
    FirstBytesDecide S.toTypeSupport sl.typeOid cmpOp (chars.text left) (chars.text right)

/-- **When a comparison is right.** -/
def Place.Right (place : Place) (schema : Schema) (chars : StoredChars row) : Comparison → Prop
  | .constant flip name col e => ∀ s, schema col = some s →
      ConstantRight S row place chars s flip name col e
  | .columns name left right => ∀ sl sr cmpOp, schema left = some sl → schema right = some sr →
      mapComparisonNameToQualOp name = some cmpOp →
        place.ColumnsRight S row chars sl sr cmpOp left right

end Conditions

/-- The readers of integers read the numbers that the reader of numerics does, and what it reads of
the texts that a projection takes for integers is the same number. -/
structure ReadsIntegers (S : ConstantSupport) : Prop where
  int4 : ∀ text v, S.int4In text = some v → S.numericIn text = some (v.toInt : ℚ)
  int8 : ∀ text v, S.int8In text = some v → S.numericIn text = some (v.toInt : ℚ)
  strtoll : ∀ text v, ProjectionLowering.strtoll text = some v →
    S.numericIn text = some (v.toInt : ℚ)
  integral : ∀ text v q, ProjectionLowering.integralConstant text = some v →
    S.numericIn text = some q → q = v.toInt

/-! ## A column against a constant -/

section Constants

variable {D : Type} {S : ConstantFunctions D} {schema : Schema} {row : Row} {place : Place}
  {chars : StoredChars row} {s : ColumnSchema} {flip : Bool} {name : CompareName} {col : Nat}
  {e : ConstExpr} {cmpOp : QualOp}

/-- A date that is shifted to a date. -/
theorem evaluateDateExpression_timestamp : ∀ (e : ConstExpr) {day : Int32},
    evaluateDateExpression S e = some day → e.timestamp S = some (day.toInt * usecsPerDay)
  | .literal value, day, h => by
    rw [evaluateDateExpression] at h
    rw [ConstExpr.timestamp, h]
    rfl
  | .binary op base (.literal interval), day, h => by
    rw [evaluateDateExpression] at h
    split at h
    · next hop =>
      obtain ⟨before, hbase, hrest⟩ := Option.bind_eq_some_iff.1 h
      obtain ⟨text, htext, hshift⟩ := Option.bind_eq_some_iff.1 hrest
      obtain ⟨ts, hts, hday⟩ := Option.bind_eq_some_iff.1 hshift
      split at hday
      · cases hday
      · next hmidnight =>
        cases hday
        rw [ConstExpr.timestamp, if_pos hop, evaluateDateExpression_timestamp base hbase]
        have hlo := Int64.le_toInt ts
        have hhi := Int64.toInt_lt ts
        -- A timestamp has eight bytes, so its day has four.
        have hfits : (Int32.ofInt (ts.toInt / usecsPerDay)).toInt = ts.toInt / usecsPerDay :=
          Int32.toInt_ofInt_of_le (by unfold usecsPerDay; omega) (by unfold usecsPerDay; omega)
        have hexact : ts.toInt / usecsPerDay * usecsPerDay = ts.toInt :=
          Int.ediv_mul_cancel_of_emod_eq_zero (not_not.1 hmidnight)
        simp [htext, hts, hfits, hexact]
    · cases h
  | .binary _ _ (.binary _ _ _), _, h => by
    rw [evaluateDateExpression] at h
    cases h

theorem evalTest_int32CmpConst (hnull : row.isNull col s.decodeKind = false) (place : Place)
    (op : QualOp) (k : Int32) :
    (place.evaluator row).evalTest (.int32CmpConst op (ownDesc col s) k) =
      .ok (op.holds (compare (row.getInt32 col s.decodeKind).toInt k.toInt)) := by
  cases place with
  | join => rfl
  | _ =>
    show Except.ok (!row.isNull col s.decodeKind && _) = _
    rw [hnull]
    rfl

theorem evalTest_int64CmpConst (hnull : row.isNull col s.decodeKind = false)
    (hkind : s.decodeKind = .int64Int8 ∨ s.decodeKind = .int64NumericScaled) (place : Place)
    (op : QualOp) (k : Int64) :
    (place.evaluator row).evalTest (.int64CmpConst op (ownDesc col s) k) =
      .ok (op.holds (compare (row.int64 col).value.toInt k.toInt)) := by
  have hint64 : (place.evaluator row).int64 (ownDesc col s) = (row.int64 col).value := by
    cases place <;> rcases hkind with h | h <;>
      simp [Place.evaluator, scanEvaluator, filterEvaluator, joinEvaluator, scanInt64, populateInt64,
        joinInt64, ownDesc, h]
  have hpresent : (place.evaluator row).isNull (ownDesc col s) = false := by
    cases place with
    | join => rfl
    | _ => exact hnull
  rw [Evaluator.evalTest, hpresent, hint64]
  rfl

theorem forall_read {α β : Type} {a : α} {b : β} {P : α → β → Prop} :
    (∀ k q, some a = some k → some b = some q → P k q) ↔ P a b := by
  constructor
  · exact fun h => h a b rfl rfl
  · rintro h k q ⟨⟩ ⟨⟩
    exact h

/-- Days compare as their timestamps. -/
theorem compare_days (a b : Int) : compare (a * usecsPerDay) (b * usecsPerDay) = compare a b := by
  have hpos : (0 : ℚ) < usecsPerDay := by norm_num
  rw [← compare_intCast, ← compare_intCast a]
  push_cast
  exact compare_mul_right _ _ hpos

theorem storedNumber_int4 (h : s.decodeKind = .int32Int4) :
    storedNumber row col s = ((row.int32 col).value.toInt : ℚ) := by
  have hne : s.decodeKind ≠ .int64NumericScaled := by rw [h]; decide
  rw [storedNumber, inputScale_of_ne hne, pow_zero, div_one, h]
  rfl

theorem storedNumber_int8 (h : s.decodeKind = .int64Int8) :
    storedNumber row col s = ((row.int64 col).value.toInt : ℚ) := by
  have hne : s.decodeKind ≠ .int64NumericScaled := by rw [h]; decide
  rw [storedNumber, inputScale_of_ne hne, pow_zero, div_one, h]
  rfl

/-- A numeric compares as its integer does with the number at its scale. -/
theorem compare_storedNumeric (h : s.decodeKind = .int64NumericScaled) (q : ℚ) :
    compare (storedNumber row col s) q =
      compare ((row.int64 col).value.toInt : ℚ) (q * 10 ^ inputScale s) := by
  have hpos : (0 : ℚ) < 10 ^ inputScale s := by positivity
  rw [← compare_mul_right _ q hpos, storedNumber, div_mul_cancel₀ _ hpos.ne', h]
  rfl

/-- The SQL value, by the operator as it is turned round. -/
theorem sql_constant (hs : schema col = some s) {b : Bool}
    (hop : mapComparisonNameToQualOp name = some cmpOp)
    (hsql : (Comparison.constant flip name col e).sql S schema chars = some b) :
    ∃ o, constantOrder S chars s flip col e = some o ∧ cmpOp.holds o = b := by
  obtain ⟨cmpOp', hop', hvalue⟩ := Option.bind_eq_some_iff.1 hsql
  obtain ⟨o, horder, hb⟩ := Option.map_eq_some_iff.1 hvalue
  obtain rfl := Option.some.inj (hop.symm.trans hop')
  rw [Comparison.order, hs] at horder
  exact ⟨o, horder, hb⟩

theorem constantRight_iff (hop : mapComparisonNameToQualOp name = some cmpOp) {folded : Bytes}
    (hfold : foldNumericConstantExpression S e = some (some folded)) :
    ConstantRight S row place chars s flip name col e ↔
      FoldedRight S row place chars s flip cmpOp (orientOp flip name cmpOp) col e folded := by
  constructor
  · exact fun h => h cmpOp hop folded hfold
  · intro h cmpOp' hop' folded' hfold'
    obtain rfl := Option.some.inj (hop.symm.trans hop')
    cases hfold.symm.trans hfold'
    exact h

/-- **A column against a constant that has been folded.** -/
theorem foldedRight_iff {text : Bytes} {t : FilterTest InputRequest}
    {td : FilterTest FilterInputDesc} {b : Bool} (hS : ReadsIntegers S.toConstantSupport)
    (h : ConstTest S.toTypeSupport s name col text t)
    (hdate : s.decodeKind = .int32Date → place = .join)
    (hfold : foldNumericConstantExpression S e = some (some text)) (hs : schema col = some s)
    (hnull : row.isNull col s.decodeKind = false)
    (htd : (orientTest flip name t).lookup (requestDesc schema) = some td)
    (hsql : (Comparison.constant flip name col e).sql S schema chars = some b) :
    (place.evaluator row).evalTest td = .ok b ↔
      ConstantRight S row place chars s flip name col e := by
  have hown := lookup_own hs
  cases h with
  | @date cmpOp value hkind hop hvalue =>
    obtain rfl := hdate hkind
    rw [orientTest_int32CmpConst, (FilterTest.lookup_one _ _).1, hown] at htd
    cases htd
    obtain ⟨o, horder, rfl⟩ := sql_constant hs hop hsql
    rw [evalTest_int32CmpConst hnull, constantRight_iff hop hfold, Except.ok.injEq]
    simp only [constantOrder, hkind] at horder
    obtain ⟨ts, hts, rfl⟩ := Option.map_eq_some_iff.1 horder
    simp only [FoldedRight, hkind, hvalue, hts]
    rw [forall_read, ← holds_iff_sameSide, compare_intCast, compare_intCast, compare_days,
      orientOp_holds hop flip (compare _ ts)]
    rfl
  | @int4 cmpOp value hkind hop hvalue =>
    rw [orientTest_int32CmpConst, (FilterTest.lookup_one _ _).1, hown] at htd
    cases htd
    obtain ⟨o, horder, rfl⟩ := sql_constant hs hop hsql
    rw [evalTest_int32CmpConst hnull, constantRight_iff hop hfold, Except.ok.injEq]
    simp only [constantOrder, hkind] at horder
    obtain ⟨q, hq, rfl⟩ := Option.map_eq_some_iff.1 horder
    have hread : (row.getInt32 col s.decodeKind).toInt = (row.int32 col).value.toInt := by
      rw [hkind]
      rfl
    simp only [FoldedRight, hkind, hS.int4 _ _ hvalue, hq]
    rw [forall_read, ← holds_iff_sameSide, ← orientOp_holds hop, ← hkind, hread, ← compare_intCast,
      storedNumber_int4 hkind]
  | @char cmpOp ch hkind hop hvalue =>
    rw [orientTest_int32CmpConst, (FilterTest.lookup_one _ _).1, hown] at htd
    cases htd
    obtain ⟨o, horder, rfl⟩ := sql_constant hs hop hsql
    rw [evalTest_int32CmpConst hnull, constantRight_iff hop hfold, Except.ok.injEq]
    simp only [constantOrder, hkind] at horder
    cases e with
    | binary _ _ _ => cases horder
    | literal value =>
      cases hfold
      cases horder
      have hread : (row.getInt32 col s.decodeKind).toInt = (row.char col).value.toNat := by
        rw [hkind]
        exact toInt_ofByte _
      have hfirst := chars.first col
      rw [hread, toInt_ofByte, orientOp_holds hop, ← orient_compare]
      simp only [FoldedRight, hkind]
      cases flip with
      | false =>
        constructor
        · intro heq a b ha hb
          obtain rfl := Option.some.inj (hfirst.symm.trans ha)
          obtain rfl := Option.some.inj (hvalue.symm.trans hb)
          exact heq
        · exact fun hright => hright _ _ hfirst hvalue
      | true =>
        constructor
        · intro heq a b ha hb
          obtain rfl := Option.some.inj (hvalue.symm.trans ha)
          obtain rfl := Option.some.inj (hfirst.symm.trans hb)
          exact heq
        · exact fun hright => hright _ _ hvalue hfirst
  | @int8 cmpOp value hkind hop hvalue =>
    rw [orientTest_int64CmpConst, (FilterTest.lookup_one _ _).2.1, hown] at htd
    cases htd
    obtain ⟨o, horder, rfl⟩ := sql_constant hs hop hsql
    rw [evalTest_int64CmpConst hnull (.inl hkind), constantRight_iff hop hfold, Except.ok.injEq]
    simp only [constantOrder, hkind] at horder
    obtain ⟨q, hq, rfl⟩ := Option.map_eq_some_iff.1 horder
    simp only [FoldedRight, hkind, hS.int8 _ _ hvalue, hq]
    rw [forall_read, ← holds_iff_sameSide, ← orientOp_holds hop, ← compare_intCast,
      storedNumber_int8 hkind]
  | @numeric cmpOp value hkind hop hvalue =>
    rw [orientTest_int64CmpConst, (FilterTest.lookup_one _ _).2.1, hown] at htd
    cases htd
    obtain ⟨o, horder, rfl⟩ := sql_constant hs hop hsql
    obtain ⟨k, hk, hround⟩ := scaleNumericConstant_spec hvalue
    rw [evalTest_int64CmpConst hnull (.inr hkind), constantRight_iff hop hfold, Except.ok.injEq]
    simp only [constantOrder, hkind] at horder
    obtain ⟨q, hq, rfl⟩ := Option.map_eq_some_iff.1 horder
    rw [← orientOp_holds hop, ← compare_intCast, compare_storedNumeric hkind, hround,
      holds_iff_sameSide]
    simp only [FoldedRight, hkind, hk, hq]
    rw [forall_read]
    split
    · next hexact =>
      obtain ⟨rfl, hscale⟩ := hexact
      rw [← sameSide_round_iff, ← hscale]
      rfl
    · rfl
  | eq hkind hname hvalue =>
    subst hname
    obtain ⟨o, horder, -⟩ := sql_constant hs rfl hsql
    simp [constantOrder, hkind] at horder
  | ne hkind hname hvalue =>
    subst hname
    obtain ⟨o, horder, -⟩ := sql_constant hs rfl hsql
    simp [constantOrder, hkind] at horder
  | like hkind hname hvalue =>
    obtain ⟨cmpOp, hop, -⟩ := Option.bind_eq_some_iff.1 hsql
    rcases hname with rfl | rfl <;> cases hop

theorem buildFolded_right {t : FilterTest InputRequest} {td : FilterTest FilterInputDesc} {b : Bool}
    (hS : ReadsIntegers S.toConstantSupport) (hs : schema col = some s)
    (hnull : row.isNull col s.decodeKind = false)
    (hdate : s.decodeKind = .int32Date → place = .join)
    (hbuild : (foldNumericConstantExpression S e).bind
      (buildConst S.toTypeSupport schema name col) = some t)
    (htd : (orientTest flip name t).lookup (requestDesc schema) = some td)
    (hsql : (Comparison.constant flip name col e).sql S schema chars = some b) :
    (place.evaluator row).evalTest td = .ok b ↔
      ConstantRight S row place chars s flip name col e := by
  obtain ⟨value, hfold, hconst⟩ := Option.bind_eq_some_iff.1 hbuild
  obtain ⟨s', text, hs', rfl, htest⟩ := buildConst_spec hconst
  cases hs.symm.trans hs'
  exact foldedRight_iff hS htest hdate hfold hs hnull htd hsql

/-- A date is evaluated to what it stands for. -/
theorem buildScanConst_right {t : FilterTest InputRequest} {td : FilterTest FilterInputDesc}
    {b : Bool}
    (hS : ReadsIntegers S.toConstantSupport) (hs : schema col = some s)
    (hnull : row.isNull col s.decodeKind = false) (hplace : place ≠ .join)
    (hbuild : buildScanConst S schema name col e = some t)
    (htd : (orientTest flip name t).lookup (requestDesc schema) = some td)
    (hsql : (Comparison.constant flip name col e).sql S schema chars = some b) :
    (place.evaluator row).evalTest td = .ok b ↔
      ConstantRight S row place chars s flip name col e := by
  rw [buildScanConst, hs] at hbuild
  replace hbuild : (if s.decodeKind = .int32Date then _ else _) = some t := hbuild
  by_cases hkind : s.decodeKind = .int32Date
  · rw [if_pos hkind] at hbuild
    obtain ⟨day, hday, hrest⟩ := Option.bind_eq_some_iff.1 hbuild
    obtain ⟨cmpOp, hop, heq⟩ := Option.bind_eq_some_iff.1 hrest
    cases heq
    rw [orientTest_int32CmpConst, (FilterTest.lookup_one _ _).1, lookup_own hs] at htd
    cases htd
    obtain ⟨o, horder, rfl⟩ := sql_constant hs hop hsql
    simp only [constantOrder, hkind, evaluateDateExpression_timestamp e hday] at horder
    cases horder
    dsimp only
    rw [evalTest_int32CmpConst hnull, orientOp_holds hop, compare_days, hkind]
    refine iff_of_true rfl fun cmpOp' _ folded _ => ?_
    cases place with
    | join => exact absurd rfl hplace
    | _ =>
      simp only [FoldedRight, hkind]
  · rw [if_neg hkind] at hbuild
    exact buildFolded_right hS hs hnull (fun h => absurd h hkind) hbuild htd hsql

/-- **A column against a constant**, at each place. -/
theorem constant_right_iff {r : Except FilterError Bool} {b : Bool}
    (hS : ReadsIntegers S.toConstantSupport) (hs : schema col = some s)
    (hnull : row.isNull col s.decodeKind = false)
    (hanswer : place.answer S schema row (.constant flip name col e) = some r)
    (hsql : (Comparison.constant flip name col e).sql S schema chars = some b) :
    r = .ok b ↔ ConstantRight S row place chars s flip name col e := by
  obtain ⟨t, ht, hrest⟩ := Option.bind_eq_some_iff.1 hanswer
  obtain ⟨td, htd, heq⟩ := Option.bind_eq_some_iff.1 hrest
  cases heq
  cases place with
  | join =>
    obtain ⟨t₀, hbuild, rfl⟩ := Option.map_eq_some_iff.1 ht
    exact buildFolded_right hS hs hnull (fun _ => rfl) hbuild htd hsql
  | scan scratch =>
    obtain ⟨t₀, hbuild, rfl⟩ := Option.map_eq_some_iff.1 ht
    exact buildScanConst_right hS hs hnull nofun hbuild htd hsql
  | filter =>
    obtain ⟨t₀, hbuild, rfl⟩ := Option.map_eq_some_iff.1 ht
    exact buildScanConst_right hS hs hnull nofun hbuild htd hsql

end Constants

/-! ## A column against a column -/

section Columns

variable {D : Type} {S : ConstantFunctions D} {schema : Schema} {row : Row}
  {sl sr : ColumnSchema} {name : CompareName} {left right : Nat} {cmpOp : QualOp}
  {t : FilterTest InputRequest} {td : FilterTest FilterInputDesc}

/-- Two columns that are not NULL, compared as four-byte integers. -/
theorem evalTest_int32CmpVar (hnl : row.isNull left sl.decodeKind = false)
    (hnr : row.isNull right sr.decodeKind = false) (place : Place) (op : QualOp) :
    (place.evaluator row).evalTest (.int32CmpVar op (ownDesc left sl) (ownDesc right sr)) =
      .ok (op.holds (compare (row.getInt32 left sl.decodeKind).toInt
        (row.getInt32 right sr.decodeKind).toInt)) := by
  cases place with
  | join => rfl
  | _ =>
    show Except.ok (!(row.isNull left sl.decodeKind || row.isNull right sr.decodeKind) && _) = _
    rw [hnl, hnr]
    rfl

theorem getInt32_integer {s : ColumnSchema} {col : Nat} (h : s.decodeKind = .int32Int4) :
    (row.getInt32 col s.decodeKind).toInt = integerValue row col s.decodeKind := by
  rw [h]
  rfl

theorem int64_integer {s : ColumnSchema} {col : Nat}
    (h : s.decodeKind = .int64Int8 ∨ s.decodeKind = .int64NumericScaled) :
    (row.int64 col).value.toInt = integerValue row col s.decodeKind := by
  rcases h with h | h <;> rw [h] <;> rfl

/-- A kind of the numeric family that is compared in four bytes. -/
theorem int4_of_family {s : ColumnSchema} (hfamily : isNumericFamily s.decodeKind = true)
    (h : s.decodeKind = .int32Date ∨ s.decodeKind = .int32Int4 ∨ s.decodeKind = .int32Char) :
    s.decodeKind = .int32Int4 := by
  rcases h with h | h | h
  · rw [h] at hfamily
    cases hfamily
  · exact h
  · rw [h] at hfamily
    cases hfamily

/-- **A scan compares what stands in its slots.** -/
theorem evalTest_scan (hl : isNumericFamily sl.decodeKind = true)
    (hr : isNumericFamily sr.decodeKind = true) (hnl : row.isNull left sl.decodeKind = false)
    (hnr : row.isNull right sr.decodeKind = false) (hsl : schema left = some sl)
    (hsr : schema right = some sr) (hop : mapComparisonNameToQualOp name = some cmpOp)
    (h : VarTest scanTargetScale sl sr name left right t)
    (htd : t.lookup (requestDesc schema) = some td) (scratch : FilterInputDesc → Int64) :
    (scanEvaluator scratch row).evalTest td = .ok (cmpOp.holds (compare
      (scannedInteger scratch row left sl sr (scanTargetScale sl sr))
      (scannedInteger scratch row right sr sl (scanTargetScale sl sr)))) := by
  cases h with
  | @int32 cmpOp' hkind hint hop' =>
    obtain rfl := Option.some.inj (hop.symm.trans hop')
    rw [(FilterTest.lookup_two _ _ _).1, lookup_own hsl, lookup_own hsr] at htd
    cases htd
    have hint4 := int4_of_family hl hint
    have hint4r := hkind.trans hint4
    have hrun := evalTest_int32CmpVar hnl hnr (.scan scratch) cmpOp
    rw [getInt32_integer hint4, getInt32_integer hint4r] at hrun
    rw [scannedInteger, if_neg fun hand => hand.2 hint4r, scannedInteger,
      if_neg fun hand => hand.2 hint4]
    exact hrun
  | @int64 cmpOp' hkind hint hop' =>
    obtain rfl := Option.some.inj (hop.symm.trans hop')
    rw [(FilterTest.lookup_two _ _ _).2, lookup_own hsl, lookup_own hsr] at htd
    cases htd
    have hne : sl.decodeKind ≠ .int32Int4 := by rcases hint with h | h <;> rw [h] <;> decide
    have hscanl : scanInt64 scratch row (ownDesc left sl) = (row.int64 left).value := by
      rcases hint with h | h <;> simp [scanInt64, ownDesc, h]
    have hscanr : scanInt64 scratch row (ownDesc right sr) = (row.int64 right).value := by
      rcases hint with h | h <;> simp [scanInt64, ownDesc, hkind, h]
    rw [scan_int64CmpVar, hscanl, hscanr, int64_integer hint, int64_integer (hkind ▸ hint),
      scannedInteger, if_neg fun hand => hne hand.1, scannedInteger,
      if_neg fun hand => hne (hkind ▸ hand.1)]
    show Except.ok (!(row.isNull left sl.decodeKind || row.isNull right sr.decodeKind) && _) = _
    rw [hnl, hnr]
    rfl
  | @promoted cmpOp' hkind _ _ hop' =>
    obtain rfl := Option.some.inj (hop.symm.trans hop')
    rw [(FilterTest.lookup_two _ _ _).2, lookup_promoted hsl, lookup_promoted hsr] at htd
    cases htd
    rw [scan_int64CmpVar, scanInt64_promoted hl hkind, scanInt64_promoted hr hkind.symm]
    show Except.ok (!(row.isNull left sl.decodeKind || row.isNull right sr.decodeKind) && _) = _
    rw [hnl, hnr]
    rfl

theorem bothFit_integers (hl : sl.decodeKind ≠ .int64NumericScaled)
    (hr : sr.decodeKind ≠ .int64NumericScaled) : BothFit row sl sr left right := by
  rw [BothFit, inputScale_of_ne hl, inputScale_of_ne hr]
  exact ⟨.inl rfl, .inl rfl⟩

/-- **A join brings both numbers to one scale**, and they have to fit. -/
theorem evalTest_join (hl : isNumericFamily sl.decodeKind = true)
    (hr : isNumericFamily sr.decodeKind = true) (hsl : schema left = some sl)
    (hsr : schema right = some sr) (hop : mapComparisonNameToQualOp name = some cmpOp)
    (h : VarTest (fun _ _ => 0) sl sr name left right t)
    (htd : t.lookup (requestDesc schema) = some td) (x : Bool) :
    (joinEvaluator row).evalTest td = .ok x ↔ BothFit row sl sr left right ∧
      cmpOp.holds (compare (storedNumber row left sl) (storedNumber row right sr)) = x := by
  have hplain : sl.decodeKind ≠ .int64NumericScaled → sr.decodeKind ≠ .int64NumericScaled →
      (joinEvaluator row).evalTest td = .ok (cmpOp.holds (compare
        (integerValue row left sl.decodeKind) (integerValue row right sr.decodeKind))) →
      ((joinEvaluator row).evalTest td = .ok x ↔ BothFit row sl sr left right ∧
        cmpOp.holds (compare (storedNumber row left sl) (storedNumber row right sr)) = x) := by
    intro hnl hnr hrun
    have hscale : inputScale sl = inputScale sr :=
      (inputScale_of_ne hnl).trans (inputScale_of_ne hnr).symm
    rw [hrun, compare_storedNumber_of_eq hscale, and_iff_right (bothFit_integers hnl hnr),
      Except.ok.injEq]
  cases h with
  | @int32 cmpOp' hkind hint hop' =>
    obtain rfl := Option.some.inj (hop.symm.trans hop')
    rw [(FilterTest.lookup_two _ _ _).1, lookup_own hsl, lookup_own hsr] at htd
    cases htd
    have hint4 := int4_of_family hl hint
    have hint4r := hkind.trans hint4
    refine hplain (by rw [hint4]; decide) (by rw [hint4r]; decide) ?_
    rw [← getInt32_integer hint4, ← getInt32_integer hint4r]
    rfl
  | @int64 cmpOp' hkind hint hop' =>
    obtain rfl := Option.some.inj (hop.symm.trans hop')
    rw [(FilterTest.lookup_two _ _ _).2, lookup_own hsl, lookup_own hsr] at htd
    cases htd
    rcases hint with hint8 | hnum
    · have hint8r := hkind.trans hint8
      refine hplain (by rw [hint8]; decide) (by rw [hint8r]; decide) ?_
      rw [← int64_integer (.inl hint8), ← int64_integer (.inl hint8r)]
      simp [Evaluator.evalTest, joinEvaluator, joinInt64, ownDesc, hint8, hint8r]
    · have hnumr := hkind.trans hnum
      have hdl : promotedDesc left sl 0 = ownDesc left sl := promotedDesc_eq_ownDesc hnum
      have hdr : promotedDesc right sr 0 = ownDesc right sr := promotedDesc_eq_ownDesc hnumr
      obtain ⟨hjoinl, -⟩ := @joinInt64_promoted row sl left hl
      obtain ⟨hjoinr, -⟩ := @joinInt64_promoted row sr right hr
      rw [hdl] at hjoinl
      rw [hdr] at hjoinr
      rw [join_numerics hnum hnumr]
      exact rescaledAnswer_numbers hjoinl rfl hjoinr rfl x
  | @promoted cmpOp' hkind _ _ hop' =>
    obtain rfl := Option.some.inj (hop.symm.trans hop')
    rw [(FilterTest.lookup_two _ _ _).2, lookup_promoted hsl, lookup_promoted hsr] at htd
    cases htd
    obtain ⟨hjoinl, hjscalel⟩ := @joinInt64_promoted row sl left hl
    obtain ⟨hjoinr, hjscaler⟩ := @joinInt64_promoted row sr right hr
    rw [join_numerics rfl rfl]
    exact rescaledAnswer_numbers hjoinl hjscalel hjoinr hjscaler x

theorem filteredInteger_integer {s : ColumnSchema} {col : Nat} (h : s.decodeKind ≠ .int64NumericScaled) :
    filteredInteger row col s 0 = integerValue row col s.decodeKind := by
  rw [filteredInteger, if_neg h, pow_zero, mul_one, integerValue_bmod]

/-- What a filter compares of a promoted column. -/
theorem populateInt64_filtered {s : ColumnSchema} {col scale : Nat}
    (hfamily : isNumericFamily s.decodeKind = true) :
    (populateInt64 row (promotedDesc col s scale)).toInt = filteredInteger row col s scale := by
  by_cases hnum : s.decodeKind = .int64NumericScaled
  · rw [populateInt64_numeric hnum, filteredInteger, if_pos hnum, int64_integer (.inr hnum)]
  · rw [populateInt64_integer (integer_kind hfamily hnum), filteredInteger, if_neg hnum]

/-- **A filter brings two numerics to one scale**, and promotes other numbers in arithmetic that
wraps. -/
theorem evalTest_filter (hl : isNumericFamily sl.decodeKind = true)
    (hr : isNumericFamily sr.decodeKind = true) (hnl : row.isNull left sl.decodeKind = false)
    (hnr : row.isNull right sr.decodeKind = false) (hsl : schema left = some sl)
    (hsr : schema right = some sr) (hop : mapComparisonNameToQualOp name = some cmpOp)
    (h : VarTest scanTargetScale sl sr name left right t)
    (htd : t.lookup (requestDesc schema) = some td) (x : Bool) :
    (filterEvaluator row).evalTest td = .ok x ↔
      if sl.decodeKind = .int64NumericScaled ∧ sr.decodeKind = .int64NumericScaled then
        BothFit row sl sr left right ∧
          cmpOp.holds (compare (storedNumber row left sl) (storedNumber row right sr)) = x
      else cmpOp.holds (compare
        (filteredInteger row left sl (max (inputScale sl) (inputScale sr)))
        (filteredInteger row right sr (max (inputScale sl) (inputScale sr)))) = x := by
  have hpresent : (row.isNull left sl.decodeKind || row.isNull right sr.decodeKind) = false := by
    rw [hnl, hnr]
    rfl
  have hplain : sl.decodeKind ≠ .int64NumericScaled → sr.decodeKind ≠ .int64NumericScaled →
      max (inputScale sl) (inputScale sr) = 0 := by
    intro hnl hnr
    rw [inputScale_of_ne hnl, inputScale_of_ne hnr, max_self]
  cases h with
  | @int32 cmpOp' hkind hint hop' =>
    obtain rfl := Option.some.inj (hop.symm.trans hop')
    rw [(FilterTest.lookup_two _ _ _).1, lookup_own hsl, lookup_own hsr] at htd
    cases htd
    have hint4 := int4_of_family hl hint
    have hint4r := hkind.trans hint4
    have hnel : sl.decodeKind ≠ .int64NumericScaled := by rw [hint4]; decide
    have hner : sr.decodeKind ≠ .int64NumericScaled := by rw [hint4r]; decide
    have hrun := evalTest_int32CmpVar hnl hnr .filter cmpOp
    rw [getInt32_integer hint4, getInt32_integer hint4r] at hrun
    rw [if_neg fun hand => hnel hand.1, hplain hnel hner, filteredInteger_integer hnel,
      filteredInteger_integer hner]
    show (Place.filter.evaluator row).evalTest _ = _ ↔ _
    rw [hrun, Except.ok.injEq]
  | @int64 cmpOp' hkind hint hop' =>
    obtain rfl := Option.some.inj (hop.symm.trans hop')
    rw [(FilterTest.lookup_two _ _ _).2, lookup_own hsl, lookup_own hsr] at htd
    cases htd
    rcases hint with hint8 | hnum
    · have hint8r := hkind.trans hint8
      have hnel : sl.decodeKind ≠ .int64NumericScaled := by rw [hint8]; decide
      have hner : sr.decodeKind ≠ .int64NumericScaled := by rw [hint8r]; decide
      rw [if_neg fun hand => hnel hand.1, hplain hnel hner, filteredInteger_integer hnel,
        filteredInteger_integer hner, ← int64_integer (.inl hint8), ← int64_integer (.inl hint8r)]
      rw [hint8] at hnl
      rw [hint8r] at hnr
      simp [Evaluator.evalTest, filterEvaluator, ownDesc, hint8, hint8r, populateInt64, hnl, hnr]
    · have hnumr := hkind.trans hnum
      have hdl : promotedDesc left sl 0 = ownDesc left sl := promotedDesc_eq_ownDesc hnum
      have hdr : promotedDesc right sr 0 = ownDesc right sr := promotedDesc_eq_ownDesc hnumr
      have hfilterl : (populateInt64 row (ownDesc left sl)).toInt =
          integerValue row left sl.decodeKind := by
        rw [← hdl, populateInt64_numeric hnum, int64_integer (.inr hnum)]
      have hfilterr : (populateInt64 row (ownDesc right sr)).toInt =
          integerValue row right sr.decodeKind := by
        rw [← hdr, populateInt64_numeric hnumr, int64_integer (.inr hnumr)]
      have hrun : (filterEvaluator row).evalTest
          (.int64CmpVar cmpOp (ownDesc left sl) (ownDesc right sr)) =
            if row.isNull left sl.decodeKind || row.isNull right sr.decodeKind then .ok false
            else rescaledAnswer (populateInt64 row) cmpOp (ownDesc left sl) (ownDesc right sr) :=
        evalTest_numerics rfl hnum hnumr
      rw [if_pos ⟨hnum, hnumr⟩, hrun, hpresent]
      exact rescaledAnswer_numbers hfilterl rfl hfilterr rfl x
  | @promoted cmpOp' hkind _ _ hop' =>
    obtain rfl := Option.some.inj (hop.symm.trans hop')
    rw [(FilterTest.lookup_two _ _ _).2, lookup_promoted hsl, lookup_promoted hsr] at htd
    cases htd
    -- At most one of the two is a numeric, and then the target scale is its scale.
    have hnuml : sl.decodeKind = .int64NumericScaled → inputScale sl = scanTargetScale sl sr :=
      fun h => ((@scanTargetScale_eq sl sr).1 fun h' => hkind (h.trans h'.symm)).symm
    have hnumr : sr.decodeKind = .int64NumericScaled → inputScale sr = scanTargetScale sl sr :=
      fun h => ((@scanTargetScale_eq sl sr).2 fun h' => hkind (h'.trans h.symm)).symm
    have hscale : (promotedDesc left sl (scanTargetScale sl sr)).numericScale =
        (promotedDesc right sr (scanTargetScale sl sr)).numericScale :=
      (promotedDesc_numericScale hnuml).trans (promotedDesc_numericScale hnumr).symm
    have hrun : (filterEvaluator row).evalTest
        (.int64CmpVar cmpOp (promotedDesc left sl (scanTargetScale sl sr))
          (promotedDesc right sr (scanTargetScale sl sr))) =
          if row.isNull left sl.decodeKind || row.isNull right sr.decodeKind then .ok false
          else rescaledAnswer (populateInt64 row) cmpOp
            (promotedDesc left sl (scanTargetScale sl sr))
            (promotedDesc right sr (scanTargetScale sl sr)) :=
      evalTest_numerics rfl rfl rfl
    rw [if_neg fun hand => hkind (hand.1.trans hand.2.symm), hrun, hpresent,
      if_neg Bool.false_ne_true, rescaledAnswer_of_eq hscale, populateInt64_filtered hl,
      populateInt64_filtered hr, scanTargetScale_eq_max, Except.ok.injEq]

theorem columnsRight_iff {place : Place} {chars : StoredChars row}
    (hop : mapComparisonNameToQualOp name = some cmpOp) (hsl : schema left = some sl)
    (hsr : schema right = some sr) :
    place.Right S row schema chars (.columns name left right) ↔
      place.ColumnsRight S row chars sl sr cmpOp left right := by
  constructor
  · exact fun h => h sl sr cmpOp hsl hsr hop
  · intro h sl' sr' cmpOp' hsl' hsr' hop'
    cases hsl.symm.trans hsl'
    cases hsr.symm.trans hsr'
    obtain rfl := Option.some.inj (hop.symm.trans hop')
    exact h

/-- Two columns outside the numeric family. -/
theorem evalTest_others {place : Place} {chars : StoredChars row} {o : Ordering}
    {targetScale : ColumnSchema → ColumnSchema → Nat}
    (hfamily : ¬ (isNumericFamily sl.decodeKind && isNumericFamily sr.decodeKind) = true)
    (hnl : row.isNull left sl.decodeKind = false) (hnr : row.isNull right sr.decodeKind = false)
    (hsl : schema left = some sl) (hsr : schema right = some sr)
    (hop : mapComparisonNameToQualOp name = some cmpOp)
    (h : VarTest targetScale sl sr name left right t) (htd : t.lookup (requestDesc schema) = some td)
    (horder : columnOrder S chars sl sr left right = some o) :
    (place.evaluator row).evalTest td = .ok (cmpOp.holds o) ↔
      place.ColumnsRight S row chars sl sr cmpOp left right := by
  rw [Place.ColumnsRight, if_neg hfamily]
  rw [columnOrder, if_neg hfamily] at horder
  have hboth : isNumericFamily sl.decodeKind = true → sr.decodeKind = sl.decodeKind → False := by
    intro hl hkind
    rw [hkind, hl] at hfamily
    exact hfamily rfl
  cases h with
  | @int32 cmpOp' hkind hint hop' =>
    obtain rfl := Option.some.inj (hop.symm.trans hop')
    rw [(FilterTest.lookup_two _ _ _).1, lookup_own hsl, lookup_own hsr] at htd
    cases htd
    rw [evalTest_int32CmpVar hnl hnr, Except.ok.injEq]
    rcases hint with hdate | hint4 | hchar
    · have hdater := hkind.trans hdate
      simp only [hdate, hdater] at horder
      cases horder
      rw [hdate, hdater]
      exact iff_of_true rfl nofun
    · exact absurd hkind (hboth (by rw [hint4]; rfl))
    · have hcharr := hkind.trans hchar
      simp only [hchar, hcharr] at horder
      cases horder
      have hfirstl := chars.first left
      have hfirstr := chars.first right
      rw [hchar, hcharr]
      show cmpOp.holds (compare (Int32.ofNat _).toInt (Int32.ofNat _).toInt) = _ ↔ _
      rw [toInt_ofByte, toInt_ofByte]
      constructor
      · intro heq _ _ a b ha hb
        obtain rfl := Option.some.inj (hfirstl.symm.trans ha)
        obtain rfl := Option.some.inj (hfirstr.symm.trans hb)
        exact heq
      · exact fun hright => hright rfl rfl _ _ hfirstl hfirstr
  | @int64 cmpOp' hkind hint hop' =>
    exact absurd hkind (hboth (by rcases hint with h | h <;> rw [h] <;> rfl))
  | @promoted cmpOp' hkind hl hr hop' =>
    rw [hl, hr] at hfamily
    exact absurd rfl hfamily

/-- **A column against a column**, at each place. -/
theorem columns_right_iff {place : Place} {chars : StoredChars row} {r : Except FilterError Bool}
    {b : Bool} (hnl : ∀ s, schema left = some s → row.isNull left s.decodeKind = false)
    (hnr : ∀ s, schema right = some s → row.isNull right s.decodeKind = false)
    (hanswer : place.answer S schema row (.columns name left right) = some r)
    (hsql : (Comparison.columns name left right).sql S schema chars = some b) :
    r = .ok b ↔ place.Right S row schema chars (.columns name left right) := by
  obtain ⟨t, ht, hrest⟩ := Option.bind_eq_some_iff.1 hanswer
  obtain ⟨td, htd, heq⟩ := Option.bind_eq_some_iff.1 hrest
  cases heq
  obtain ⟨cmpOp, hname, hvalue⟩ := Option.bind_eq_some_iff.1 hsql
  have hop : mapComparisonNameToQualOp name = some cmpOp := hname
  obtain ⟨o, horder, rfl⟩ := Option.map_eq_some_iff.1 hvalue
  obtain ⟨sl, hsl, hright⟩ := Option.bind_eq_some_iff.1 horder
  obtain ⟨sr, hsr, horder⟩ := Option.bind_eq_some_iff.1 hright
  rw [columnsRight_iff hop hsl hsr]
  -- A join has a target scale of its own.
  have htest : ∃ targetScale, VarTest targetScale sl sr name left right t ∧
      (place = .join → targetScale = fun _ _ => 0) ∧
        (place ≠ .join → targetScale = scanTargetScale) := by
    cases place with
    | join =>
      obtain ⟨sl', sr', hsl', hsr', hvar⟩ := buildVar_spec ht
      cases hsl.symm.trans hsl'
      cases hsr.symm.trans hsr'
      exact ⟨_, hvar, fun _ => rfl, fun h => absurd rfl h⟩
    | _ =>
      obtain ⟨sl', sr', hsl', hsr', hvar⟩ := buildVar_spec ht
      cases hsl.symm.trans hsl'
      cases hsr.symm.trans hsr'
      exact ⟨_, hvar, nofun, fun _ => rfl⟩
  obtain ⟨targetScale, hvar, hjoin, hscan⟩ := htest
  by_cases hfamily : (isNumericFamily sl.decodeKind && isNumericFamily sr.decodeKind) = true
  · obtain ⟨hl, hr⟩ := Bool.and_eq_true_iff.1 hfamily
    rw [columnOrder, if_pos hfamily] at horder
    cases horder
    rw [Place.ColumnsRight, if_pos hfamily]
    cases place with
    | scan scratch =>
      obtain rfl := hscan nofun
      show (scanEvaluator scratch row).evalTest td = _ ↔ _
      rw [evalTest_scan hl hr (hnl sl hsl) (hnr sr hsr) hsl hsr hop hvar htd scratch,
        Except.ok.injEq]
    | filter =>
      obtain rfl := hscan nofun
      show (filterEvaluator row).evalTest td = _ ↔ _
      rw [evalTest_filter hl hr (hnl sl hsl) (hnr sr hsr) hsl hsr hop hvar htd]
      split
      · exact and_iff_left rfl
      · rfl
    | join =>
      obtain rfl := hjoin rfl
      show (joinEvaluator row).evalTest td = _ ↔ _
      rw [evalTest_join hl hr hsl hsr hop hvar htd]
      exact and_iff_left rfl
  · exact evalTest_others hfamily (hnl sl hsl) (hnr sr hsr) hsl hsr hop hvar htd horder

end Columns

/-! ## A condition of a projection -/

section Projection

open ProjectionLowering (Columns SourceColumn numericCompareConst point)
open ProjectionTape (boolInt64 execute)

/-- The integer in the slot of a column. -/
def slotInteger (row : ProjectionTape.Row) (source : SourceColumn) : Int :=
  if source.decodeKind = .int32Int4 then (row.int32 source.chunkSlot).toInt
  else (row.int64 source.chunkSlot).toInt

/-- The number that the slot stands for. -/
def slotNumber (row : ProjectionTape.Row) (source : SourceColumn) : ℚ :=
  slotInteger row source / 10 ^ inputScale source.toColumnSchema

/-- What the steps that a comparison has added leave in its slot. -/
def projectedAnswer (yearOf : Int32 → Int64) (row : ProjectionTape.Row)
    (s s' : ProjectionLowering.LowerState) (slot : Nat) : Except String (Option Int64) :=
  (execute yearOf (s'.steps.drop s.steps.length) row).map fun row' => row'.register slot

/-- **When a condition of a projection is right**: a constant with a point is rounded, one without a
point is brought to the column's scale in arithmetic that wraps. -/
def ProjectedRight (row : ProjectionTape.Row) (source : SourceColumn) (cmpOp : QualOp) (text : Bytes)
    (q : ℚ) : Prop :=
  source.decodeKind = .int64NumericScaled →
    let scale := inputScale source.toColumnSchema
    if point ∈ text then RoundsRight cmpOp (slotInteger row source) (q * 10 ^ scale)
    else SameSide cmpOp (slotInteger row source) ((⌊q⌋ * 10 ^ scale).bmod (2 ^ 64) : Int)
      (q * 10 ^ scale)

variable {S : ConstantSupport} {columns : Columns} {col : Nat} {source : SourceColumn}
  {name : CompareName} {cmpOp : QualOp} {text : Bytes} {s s' : ProjectionLowering.LowerState}
  {slot : Nat} {row : ProjectionTape.Row} {yearOf : Int32 → Int64} {q : ℚ}

/-- A step of a comparison leaves its truth value in the slot it writes. -/
theorem execute_int64VarConst {row : ProjectionTape.Row} {a : Int64} {slot out : Nat} {k : Int64}
    (ha : row.register slot = some a) :
    (execute yearOf [⟨.int64VarConst cmpOp, slot, 0, out, k⟩] row).map
      (fun row' => row'.register out) =
      .ok (some (boolInt64 (cmpOp.holds (compare a.toInt k.toInt)))) := by
  rw [ProjectionTape.execute_singleton]
  have hstep : ProjectionTape.stepInt64 yearOf ⟨.int64VarConst cmpOp, slot, 0, out, k⟩ row =
      .ok (some (boolInt64 (cmpOp.holds (compare a.toInt k.toInt)))) := by
    show Except.ok ((row.register slot).map _) = _
    rw [ha]
    rfl
  rw [ProjectionTape.executeStep_eq (by simp) hstep]
  show Except.ok ((row.setInt64 out _).register out) = _
  rw [ProjectionTape.register_setInt64]

/-- **The steps of a comparison compare the integer of the column**, widened first if it has four
bytes. -/
theorem lowerProjectionNumericCompare_run {r : Except String (Option Int64)}
    (hcol : columns col = some source) (hnull : row.nulls source.chunkSlot = false)
    (hop : mapComparisonNameToQualOp name = some cmpOp)
    (h : ProjectionLowering.lowerProjectionNumericCompare S columns
      ⟨name, .column col, .constant (some text)⟩ s = some (slot, s'))
    (hrun : projectedAnswer yearOf row s s' slot = r) :
    ∃ k, numericCompareConst S source text = some k ∧
      r = .ok (some (boolInt64 (cmpOp.holds (compare (slotInteger row source) k.toInt)))) := by
  subst hrun
  rw [ProjectionLowering.lowerProjectionNumericCompare] at h
  dsimp only at h
  split at h
  · cases h
  · obtain ⟨cmpOp', hop', h⟩ := Option.bind_eq_some_iff.1 h
    obtain rfl := Option.some.inj (hop.symm.trans hop')
    obtain ⟨text', htext, h⟩ := Option.bind_eq_some_iff.1 h
    obtain rfl := Option.some.inj htext
    obtain ⟨source', hcol', h⟩ := Option.bind_eq_some_iff.1 h
    obtain rfl := Option.some.inj (hcol.symm.trans hcol')
    obtain ⟨k, hk, h⟩ := Option.bind_eq_some_iff.1 h
    refine ⟨k, hk, ?_⟩
    by_cases hkind : source.decodeKind = .int32Int4
    · rw [if_pos hkind] at h
      cases h
      -- The widened integer is in a slot of its own.
      have hcell : row.int32Cell source.chunkSlot = some (row.int32 source.chunkSlot) := by
        rw [ProjectionTape.Row.int32Cell, ProjectionTape.Row.cell, hnull]
        rfl
      have hwiden : ProjectionTape.stepInt64 yearOf
          ⟨.int32ToInt64Var, source.chunkSlot, 0, s.nextInt64Slot, 0⟩ row =
          .ok (some (row.int32 source.chunkSlot).toInt64) := by
        show Except.ok ((row.int32Cell source.chunkSlot).map _) = _
        rw [hcell]
        rfl
      rw [projectedAnswer]
      simp only [ProjectionLowering.LowerState.push, List.append_assoc, List.drop_left]
      rw [ProjectionTape.execute_append, ProjectionTape.execute_singleton,
        ProjectionTape.executeStep_eq (by simp) hwiden]
      show (execute yearOf [_] (row.setInt64 s.nextInt64Slot _)).map _ = _
      rw [execute_int64VarConst (ProjectionTape.register_setInt64 _ _ _), slotInteger, if_pos hkind,
        Int32.toInt_toInt64]
    · rw [if_neg hkind] at h
      cases h
      have hregister : row.register source.chunkSlot = some (row.int64 source.chunkSlot) := by
        rw [ProjectionTape.Row.register, ProjectionTape.Row.cell, hnull]
        rfl
      rw [projectedAnswer]
      simp only [List.drop_left]
      rw [execute_int64VarConst hregister, slotInteger, if_neg hkind]

theorem boolInt64_inj {a b : Bool} : boolInt64 a = boolInt64 b ↔ a = b := by
  cases a <;> cases b <;> decide

/-- The constant of a numeric column, by its point. -/
theorem numericCompareConst_numeric {k : Int64} (hS : ReadsIntegers S)
    (hkind : source.decodeKind = .int64NumericScaled) (hq : S.numericIn text = some q)
    (h : numericCompareConst S source text = some k) :
    k.toInt = if point ∈ text then roundHalfAway (q * 10 ^ inputScale source.toColumnSchema)
      else (⌊q⌋ * 10 ^ inputScale source.toColumnSchema).bmod (2 ^ 64) := by
  rw [numericCompareConst, hkind] at h
  replace h : (if point ∈ text then ProjectionLowering.scaleNumericConstantToTargetScale S text
      (columnNumericScale source.toColumnSchema) else
      ProjectionLowering.scaleIntegralConstantToTargetScale text
        (columnNumericScale source.toColumnSchema)) = some k := h
  by_cases hpoint : point ∈ text
  · rw [if_pos hpoint] at h
    rw [if_pos hpoint]
    rw [ProjectionLowering.scaleNumericConstantToTargetScale] at h
    split at h
    · obtain ⟨q', hq', hround⟩ := scaleNumericConstant_spec h
      obtain rfl := Option.some.inj (hq.symm.trans hq')
      exact hround
    · cases h
  · rw [if_neg hpoint] at h
    rw [if_neg hpoint]
    rw [ProjectionLowering.scaleIntegralConstantToTargetScale] at h
    split at h
    · cases h
    · obtain ⟨v, hv, h⟩ := Option.bind_eq_some_iff.1 h
      rw [ProjectionSteps.rescaleInt64Constant, if_neg (by omega), if_neg (by omega), sub_zero] at h
      obtain ⟨factor, hfactor, rfl⟩ := Option.map_eq_some_iff.1 h
      obtain ⟨-, hle, rfl⟩ := ProjectionSteps.pow10Int64_eq_some hfactor
      rw [Int64.toInt_mul, ProjectionSteps.toInt_pow10 (by omega), hS.integral _ _ _ hv hq,
        Int.floor_intCast]
      rfl

/-- **A condition of a projection.** -/
theorem projected_right_iff {r : Except String (Option Int64)} (hS : ReadsIntegers S)
    (hcol : columns col = some source) (hnull : row.nulls source.chunkSlot = false)
    (hop : mapComparisonNameToQualOp name = some cmpOp)
    (h : ProjectionLowering.lowerProjectionNumericCompare S columns
      ⟨name, .column col, .constant (some text)⟩ s = some (slot, s'))
    (hrun : projectedAnswer yearOf row s s' slot = r) (hq : S.numericIn text = some q) :
    r = .ok (some (boolInt64 (cmpOp.holds (compare (slotNumber row source) q)))) ↔
      ProjectedRight row source cmpOp text q := by
  obtain ⟨k, hk, rfl⟩ := lowerProjectionNumericCompare_run hcol hnull hop h hrun
  rw [Except.ok.injEq, Option.some.injEq, boolInt64_inj]
  have hpos : (0 : ℚ) < 10 ^ inputScale source.toColumnSchema := by positivity
  rw [← compare_mul_right _ q hpos, slotNumber, div_mul_cancel₀ _ hpos.ne', ← compare_intCast,
    holds_iff_sameSide]
  by_cases hkind : source.decodeKind = .int64NumericScaled
  · rw [ProjectedRight, numericCompareConst_numeric hS hkind hq hk]
    split
    · rw [sameSide_round_iff]
      exact ⟨fun hright _ => hright, fun hright => hright hkind⟩
    · exact ⟨fun hright _ => hright, fun hright => hright hkind⟩
  · -- An integer is read as the number it is.
    refine iff_of_true ?_ fun hnumeric => absurd hnumeric hkind
    rw [inputScale_of_ne hkind, pow_zero, mul_one]
    have hread : q = k.toInt := by
      apply Option.some.inj
      rw [← hq, ← hS.strtoll text k]
      rw [numericCompareConst] at hk
      split at hk
      · next hnumeric => exact absurd hnumeric hkind
      · exact hk
      · exact hk
      · cases hk
    rw [hread]
    cases cmpOp <;> exact Iff.rfl

end Projection

/-! ## Comparisons at every place -/

/-- The value of a literal with a point. -/
def fractionIn (text : Bytes) : Option ℚ :=
  let whole := text.takeWhile (· ≠ ProjectionLowering.point)
  let fraction := (text.dropWhile (· ≠ ProjectionLowering.point)).tail
  if ProjectionLowering.point ∈ text then do
    let w ← decimalIn whole
    let f ← decimalIn fraction
    some (w + f / 10 ^ fraction.length)
  else none

/-- Integers of eight bytes in four. -/
def narrow (v : Int64) : Option Int32 :=
  if -2 ^ 31 ≤ v.toInt ∧ v.toInt < 2 ^ 31 then some (Int32.ofInt v.toInt) else none

/-- Constants are decimal literals, texts have the C collation, and nothing is folded. -/
def decimalFunctions : ConstantFunctions Unit where
  int4In text := (ProjectionLowering.strtoll text).bind narrow
  int8In := ProjectionLowering.strtoll
  dateIn _ := none
  numericIn text := match ProjectionLowering.strtoll text with
    | some v => some (v.toInt : ℚ)
    | none => fractionIn text
  stringIn _ _ text := some text
  stringCmp _ a b := if a < b then .lt else if a = b then .eq else .gt
  looksLikeNumericLiteral _ := true
  shift _ _ _ := none
  longDouble := ⟨fun _ => none, fun _ _ => (), fun _ _ => (), fun _ _ => (), fun _ => []⟩

theorem numericIn_strtoll {text : Bytes} {v : Int64} (h : ProjectionLowering.strtoll text = some v) :
    decimalFunctions.numericIn text = some (v.toInt : ℚ) := by
  show (match ProjectionLowering.strtoll text with | some v => _ | none => _) = _
  rw [h]

/-- A truth value has no point. -/
theorem not_point_mem {text lower : Bytes} (hlower : ProjectionLowering.point ∉ lower)
    (h : ProjectionLowering.equalsIgnoreCase text lower = true) :
    ProjectionLowering.point ∉ text := by
  intro hmem
  rw [ProjectionLowering.equalsIgnoreCase, beq_iff_eq] at h
  apply hlower
  rw [← h]
  exact List.mem_map.2 ⟨_, hmem, rfl⟩

theorem toLower_letter {a : UInt8} (h : ProjectionLowering.toLower a = 116 ∨
    ProjectionLowering.toLower a = 102) : a = 116 ∨ a = 84 ∨ a = 102 ∨ a = 70 := by
  unfold ProjectionLowering.toLower at h
  split at h
  · have hcancel : ∀ b : UInt8, a + 32 = b → a = b - 32 := fun b hb => by rw [← hb]; simp
    rcases h with h | h
    · exact .inr (.inl (hcancel _ h))
    · exact .inr (.inr (.inr (hcancel _ h)))
  · rcases h with h | h
    · exact .inl h
    · exact .inr (.inr (.inl h))

/-- A text that starts with a letter is no integer. -/
theorem strtoll_letter {a : UInt8} {rest : Bytes} (h : a = 116 ∨ a = 84 ∨ a = 102 ∨ a = 70) :
    ProjectionLowering.strtoll (a :: rest) = none := by
  rcases h with rfl | rfl | rfl | rfl <;>
    simp [ProjectionLowering.strtoll, ProjectionLowering.isSpace, ProjectionLowering.isDigit]

/-- A truth value is no number. -/
theorem numericIn_truth {text : Bytes} {a : UInt8} {lower : Bytes} (ha : a = 116 ∨ a = 102)
    (hlower : ProjectionLowering.point ∉ a :: lower)
    (h : ProjectionLowering.equalsIgnoreCase text (a :: lower) = true) :
    decimalFunctions.numericIn text = none := by
  have hpoint := not_point_mem hlower h
  rw [ProjectionLowering.equalsIgnoreCase, beq_iff_eq] at h
  cases text with
  | nil => cases h
  | cons b rest =>
    have hb : ProjectionLowering.toLower b = a := List.cons_eq_cons.1 h |>.1
    have hletter : ProjectionLowering.strtoll (b :: rest) = none :=
      strtoll_letter (toLower_letter (hb ▸ ha))
    show (match ProjectionLowering.strtoll (b :: rest) with | some v => _ | none => _) = _
    rw [hletter]
    exact if_neg hpoint

theorem decimalFunctions_reads : ReadsIntegers decimalFunctions.toConstantSupport where
  int4 := by
    intro text v h
    obtain ⟨w, hw, hv⟩ := Option.bind_eq_some_iff.1 h
    rw [narrow] at hv
    split at hv
    · next hfits =>
      cases hv
      rw [Int32.toInt_ofInt_of_le hfits.1 hfits.2]
      exact numericIn_strtoll hw
    · cases hv
  int8 := fun text v h => numericIn_strtoll h
  strtoll := fun text v h => numericIn_strtoll h
  integral := by
    intro text v q h hq
    rw [ProjectionLowering.integralConstant] at h
    split at h
    · next htrue =>
      cases (numericIn_truth (.inl rfl) (by decide) htrue).symm.trans hq
    · split at h
      · next hfalse =>
        cases (numericIn_truth (.inr rfl) (by decide) hfalse).symm.trans hq
      · rw [numericIn_strtoll h] at hq
        exact (Option.some.inj hq).symm

/-- Numerics with one digit behind the point. -/
def tenthsSchema : Schema :=
  fun col => if col = 1 then some ⟨1700, (10 * 65536 + 1) + 4, .int64NumericScaled, .left⟩ else none

/-- The value 0.2 everywhere. -/
def fifthRow : Row :=
  { nullRow with
    int64 := fun _ => ⟨2, false⟩
    char := fun _ => ⟨65, false⟩ }

def fifthChars : StoredChars fifthRow := ⟨fun _ => [65], fun _ => rfl⟩

/-- `a = 0.15` and `a < 0.15`. -/
def equalsThreeTwentieths : Comparison :=
  .constant false .eq 1 (.literal (some [48, 46, 49, 53]))

def lessThanThreeTwentieths : Comparison :=
  .constant false .lt 1 (.literal (some [48, 46, 49, 53]))

theorem fifth_stored (name : CompareName) (e : ConstExpr) :
    (Comparison.constant false name 1 e).Stored tenthsSchema fifthRow := by
  intro s hs
  cases hs
  rfl

/-- The column in the first slot of a projection. -/
def tenthsColumn : ProjectionLowering.SourceColumn :=
  ⟨⟨1700, (10 * 65536 + 1) + 4, .int64NumericScaled, .left⟩, 0, by decide⟩

def fifthProjectionRow : ProjectionTape.Row := ⟨fun _ => 0, fun _ => 2, fun _ => [], fun _ => false⟩

theorem numericIn_fifteen : decimalFunctions.numericIn [48, 46, 49, 53] = some (3 / 20) := by
  show fractionIn [48, 46, 49, 53] = _
  have hwhole : decimalIn [48] = some 0 := rfl
  have hfraction : decimalIn [49, 53] = some 15 := rfl
  rw [fractionIn, if_pos (by decide)]
  show (do
    let w ← decimalIn [48]
    let f ← decimalIn [49, 53]
    some ((w : ℚ) + f / 10 ^ 2)) = some (3 / 20)
  rw [hwhole, hfraction]
  norm_num

/-- In tenths, 0.15 is rounded to two. -/
theorem scale_fifteen : scaleNumericConstantToTargetScale decimalFunctions.toTypeSupport
    [48, 46, 49, 53] 1 = some 2 := by
  have hround : roundHalfAway (3 / 20 * (10 : Int)) = 2 := by
    rw [roundHalfAway, if_pos (by norm_num)]
    norm_num
  rw [scaleNumericConstantToTargetScale, numericIn_fifteen]
  show (if fitsInt64 (roundHalfAway (3 / 20 * (10 : Int))) then
    some (Int64.ofInt (roundHalfAway (3 / 20 * (10 : Int)))) else none) = _
  rw [hround]
  decide

/-- A comparison with 0.15 compares the stored two with two. -/
theorem answer_fifteen (name : CompareName) (cmpOp : QualOp)
    (hop : mapComparisonNameToQualOp name = some cmpOp) :
    Place.filter.answer decimalFunctions tenthsSchema fifthRow
      (.constant false name 1 (.literal (some [48, 46, 49, 53]))) =
        some (.ok (cmpOp.holds .eq)) := by
  have htest : Place.filter.test decimalFunctions tenthsSchema
      (.constant false name 1 (.literal (some [48, 46, 49, 53]))) =
        some (.int64CmpConst cmpOp (.own 1) 2) := by
    show Option.map (orientTest false name) (do
      let value ← scaleNumericConstantToTargetScale decimalFunctions.toTypeSupport
        [48, 46, 49, 53] 1
      let cmpOp ← mapComparisonNameToQualOp name
      some (.int64CmpConst cmpOp (InputRequest.own 1) value)) = _
    rw [scale_fifteen, hop]
    rfl
  rw [Place.answer, htest]
  rfl

theorem sql_fifteen (name : CompareName) (cmpOp : QualOp)
    (hop : mapComparisonNameToQualOp name = some cmpOp) :
    Comparison.sql decimalFunctions tenthsSchema fifthChars
      (.constant false name 1 (.literal (some [48, 46, 49, 53]))) = some (cmpOp.holds .gt) := by
  have horder : Comparison.order decimalFunctions tenthsSchema fifthChars
      (.constant false name 1 (.literal (some [48, 46, 49, 53]))) = some .gt := by
    show Option.map (fun q => compare (storedNumber fifthRow 1 _) q)
      (decimalFunctions.numericIn [48, 46, 49, 53]) = _
    rw [numericIn_fifteen]
    show some (compare ((2 : Int) / 10 ^ 1 : ℚ) (3 / 20)) = _
    rw [compare_gt_iff_gt.2 (by norm_num)]
  rw [Comparison.sql, horder]
  show Option.bind (mapComparisonNameToQualOp name) _ = _
  rw [hop]
  rfl

end IntegerComparisons
end PgYaap
