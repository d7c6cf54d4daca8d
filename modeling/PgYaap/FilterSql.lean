import Mathlib
import PgYaap.FilterProgramCorrectness

/-! # Filter programs and SQL

The SQL value of a predicate on a row, in three-valued logic, and when the standalone
filter selects exactly the rows on which it is TRUE. This is decided test by test
(`ReadRight`). A test is false for a NULL operand, which is right where SQL asks
whether it is TRUE and wrong under a negation; and some tests do not ask what the
comparison says: a LIKE pattern without `%` is read as a prefix, a numeric constant is
rounded to the scale of the type modifier, a constant for a character is cut to its
first byte. -/
namespace PgYaap
namespace FilterProgram
open SqlLogic

/-! ## The SQL value of a predicate -/

inductive SqlValue
  | number (q : ℚ)
  | date (day : Int)
  | text (typeOid : Nat) (s : Bytes)

/-- The value in the cell of a column. A scaled numeric stands for the value divided by its
scale. Predicates over `double precision` columns are not lowered. -/
def cellValue (row : Row) (col : Nat) (s : ColumnSchema) : Option SqlValue :=
  match s.decodeKind with
  | .int32Char => some (.text s.typeOid [(row.char col).value])
  | .int32Date => some (.date (row.int32 col).value.toInt)
  | .int32Int4 => some (.number (row.int32 col).value.toInt)
  | .int64Int8 => some (.number (row.int64 col).value.toInt)
  | .int64NumericScaled => some (.number ((row.int64 col).value.toInt / 10 ^ inputScale s))
  | .stringRef => some (.text s.typeOid (row.string col).value.val)
  | .doubleFloat8 => none

/-- The value of a column on a row; NULL is `none`. -/
def columnValue (schema : Schema) (row : Row) (col : Nat) : Option SqlValue := do
  let s ← schema col
  if row.isNull col s.decodeKind then none else cellValue row col s

/-- The value of a literal compared with a column. -/
def constantValue (T : TypeSupport) (schema : Schema) (col : Nat) (constant : Option Bytes) :
    Option SqlValue := do
  let s ← schema col
  let text ← constant
  match s.decodeKind with
  | .int32Date => (T.dateIn text).map fun v => .date v.toInt
  | .int32Int4 => (T.int4In text).map fun v => .number v.toInt
  | .int64Int8 => (T.int8In text).map fun v => .number v.toInt
  | .int64NumericScaled => (T.numericIn text).map .number
  | .int32Char | .stringRef => some (.text s.typeOid text)
  | .doubleFloat8 => none

/-- How two values of one type compare. -/
def sqlOrder (T : TypeSupport) : SqlValue → SqlValue → Option Ordering
  | .number a, .number b => some (compare a b)
  | .date a, .date b => some (compare a b)
  | .text oid a, .text _ b => some (T.stringCmp oid a b)
  | _, _ => none

def sqlLike : SqlValue → SqlValue → Option Bool
  | .text _ s, .text _ pattern => some (like pattern s)
  | _, _ => none

/-- A comparison of two values that are not NULL. -/
def sqlAnswer (T : TypeSupport) (name : CompareName) (l r : SqlValue) : Option Bool :=
  match name with
  | .like => sqlLike l r
  | .notLike => (sqlLike l r).map (!·)
  | name => do
      let cmpOp ← mapComparisonNameToQualOp name
      (sqlOrder T l r).map cmpOp.holds

/-- The operands of a comparison: a literal has the type of the column. -/
def sqlOperands (T : TypeSupport) (schema : Schema) (row : Row) (c : Compare) :
    Option (SqlValue × SqlValue) :=
  match c.left, c.right with
  | .column left, .column right => do some (← columnValue schema row left, ← columnValue schema row right)
  | .column col, .constant value => do
      some (← columnValue schema row col, ← constantValue T schema col value)
  | .constant value, .column col => do
      some (← constantValue T schema col value, ← columnValue schema row col)
  | .constant _, .constant _ => none

/-- **The SQL value of a comparison.** -/
def sqlTest (T : TypeSupport) (schema : Schema) (row : Row) (c : Compare) : Truth :=
  match (sqlOperands T schema row c).bind fun (l, r) => sqlAnswer T c.name l r with
  | some b => .ofBool b
  | none => .unknown

def BoolExprType.truth : BoolExprType → Truth → Truth → Truth
  | .and => Truth.and
  | .or => Truth.or

mutual

/-- **The SQL value of a predicate.** -/
def Expr.sqlValue (test : Compare → Truth) : Expr → Truth
  | .compare c => test c
  | .not child => (child.sqlValue test).not
  | .bool _ [] => .false
  | .bool type (child :: children) => sqlChildren test type children (child.sqlValue test)

def sqlChildren (test : Compare → Truth) (type : BoolExprType) : List Expr → Truth → Truth
  | [], a => a
  | child :: children, a => sqlChildren test type children (type.truth a (child.sqlValue test))

end

/-- The SQL value of a WHERE clause, the conjunction of its filters. -/
def sqlWhere (test : Compare → Truth) (filters : List Expr) : Truth :=
  filters.foldr (fun filter a => (filter.sqlValue test).and a) .true

/-! ## Polarity -/

mutual

/-- Every test of a predicate that stands under `pos` negations modulo two satisfies
`P`. -/
def Expr.TestsIn (P : Bool → Compare → Prop) (pos : Bool) : Expr → Prop
  | .compare c => P pos c
  | .not child => child.TestsIn P (!pos)
  | .bool _ children => childrenTestsIn P pos children

def childrenTestsIn (P : Bool → Compare → Prop) (pos : Bool) : List Expr → Prop
  | [] => True
  | child :: children => child.TestsIn P pos ∧ childrenTestsIn P pos children

end

mutual

theorem Expr.testsIn_mono {P Q : Bool → Compare → Prop} (hPQ : ∀ pos c, P pos c → Q pos c) :
    ∀ (e : Expr) (pos : Bool), e.TestsIn P pos → e.TestsIn Q pos
  | .compare c, pos, h => by
    rw [Expr.TestsIn] at h ⊢
    exact hPQ pos c h
  | .not child, pos, h => by
    rw [Expr.TestsIn] at h ⊢
    exact Expr.testsIn_mono hPQ child (!pos) h
  | .bool type children, pos, h => by
    rw [Expr.TestsIn] at h ⊢
    exact childrenTestsIn_mono hPQ children pos h

theorem childrenTestsIn_mono {P Q : Bool → Compare → Prop} (hPQ : ∀ pos c, P pos c → Q pos c) :
    ∀ (children : List Expr) (pos : Bool), childrenTestsIn P pos children →
      childrenTestsIn Q pos children
  | [], pos, _ => by
    rw [childrenTestsIn]
    trivial
  | child :: children, pos, h => by
    rw [childrenTestsIn] at h ⊢
    exact ⟨Expr.testsIn_mono hPQ child pos h.1, childrenTestsIn_mono hPQ children pos h.2⟩

end

theorem BoolExprType.truth_holds (type : BoolExprType) (pos : Bool) (a b : Truth) :
    (type.truth a b).holds pos = type.combine (a.holds pos) (b.holds pos) := by
  cases type with
  | and => exact Truth.holds_and pos a b
  | or => exact Truth.holds_or pos a b

section Polarity
variable (reading : Compare → Except FilterError Bool) (test : Compare → Truth)

/-- The reading of a test under `pos` negations modulo two is what SQL asks there. -/
def ReadsAs (pos : Bool) (c : Compare) : Prop := reading c = .ok ((test c).holds pos)

mutual

theorem Expr.twoValued_eq : ∀ (e : Expr) (pos : Bool), e.TestsIn (ReadsAs reading test) pos →
    e.twoValued reading = .ok ((e.sqlValue test).holds pos)
  | .compare c, pos, h => by
    rw [Expr.twoValued, Expr.sqlValue]
    exact h
  | .not child, pos, h => by
    rw [Expr.TestsIn] at h
    rw [Expr.twoValued, Expr.sqlValue, Expr.twoValued_eq child (!pos) h, Truth.holds_not]
    rfl
  | .bool _ [], pos, _ => by
    rw [Expr.twoValued, Expr.sqlValue]
    cases pos <;> rfl
  | .bool type (child :: children), pos, h => by
    rw [Expr.TestsIn, childrenTestsIn] at h
    rw [Expr.twoValued, Expr.sqlValue, Expr.twoValued_eq child pos h.1]
    exact twoValuedChildren_eq children type pos _ h.2

theorem twoValuedChildren_eq : ∀ (children : List Expr) (type : BoolExprType) (pos : Bool) (a : Truth),
    childrenTestsIn (ReadsAs reading test) pos children →
      twoValuedChildren reading type children (a.holds pos) =
        .ok ((sqlChildren test type children a).holds pos)
  | [], type, pos, a, _ => by rw [twoValuedChildren, sqlChildren]
  | child :: children, type, pos, a, h => by
    rw [childrenTestsIn] at h
    rw [twoValuedChildren, sqlChildren, Expr.twoValued_eq child pos h.1]
    show twoValuedChildren reading type children (type.combine _ _) = _
    rw [← BoolExprType.truth_holds]
    exact twoValuedChildren_eq children type pos _ h.2

end

theorem twoValuedFilters_eq {filters : List Expr}
    (h : ∀ filter ∈ filters, filter.TestsIn (ReadsAs reading test) true) :
    twoValuedFilters reading filters = .ok (sqlWhere test filters).isTrue := by
  induction filters with
  | nil => rfl
  | cons filter filters ih =>
    have hfilter := Expr.twoValued_eq reading test filter true (h filter List.mem_cons_self)
    have hrest := ih fun f hf => h f (List.mem_cons_of_mem filter hf)
    rw [twoValuedFilters, hfilter, sqlWhere, List.foldr_cons, ← sqlWhere, ← Truth.holds_true,
      Truth.holds_and]
    show (if (filter.sqlValue test).holds true then _ else _) = _
    cases hb : (filter.sqlValue test).holds true with
    | true =>
      rw [if_pos rfl, Bool.true_and, Truth.holds_true]
      exact hrest
    | false => rfl

end Polarity

/-! ## Tests that ask what the comparison says -/

/-- The order of two operands, turned round where the literal is on the left. -/
def orient (flip : Bool) (o : Ordering) : Ordering := if flip then o.swap else o

/-- The first bytes of two texts answer a comparison as the texts do. -/
def FirstBytesDecide (T : TypeSupport) (typeOid : Nat) (cmpOp : QualOp) (l r : Bytes) : Prop :=
  ∀ a b, l.head? = some a → r.head? = some b →
    cmpOp.holds (compare (a.toNat : Int) b.toNat) = cmpOp.holds (T.stringCmp typeOid l r)

/-- The pattern the tests match for a LIKE pattern without `_`: a pattern with no `%`, or
with one at its front only, is matched as if another `%` followed, and one with inner
`%` that does not end in `%` is never matched. -/
def likeReadAs (pattern : Bytes) : Option Bytes :=
  if percent ∉ pattern then some (pattern ++ [percent])
  else if pattern.head? = some percent ∧ percent ∉ pattern.tail ∧ pattern.tail ≠ [] then
    some (pattern ++ [percent])
  else if pattern.getLast? = some percent then some pattern
  else none

/-- **When the test of a column against a literal is right.** Dates and integers always
are. For a numeric, rounding the literal to the scale of the type modifier must not
change the answer; for a character, neither must cutting it to its first byte; for
`=` and `<>`, neither must reading the literal with the type of the column; and a LIKE
pattern must match what its reading matches. -/
def ConstReadRight (T : TypeSupport) (s : ColumnSchema) (row : Row) (name : CompareName) (col : Nat)
    (text : Bytes) (flip : Bool) : Prop :=
  match s.decodeKind with
  | .int64NumericScaled => ∀ cmpOp q, mapComparisonNameToQualOp name = some cmpOp →
      T.numericIn text = some q →
      let v : Int := (row.int64 col).value.toInt
      let typmodScale := (toInt8 (extractNumericTypmodScale s.typmod)).toNat
      cmpOp.holds (orient flip (compare v (roundHalfAway (q * 10 ^ typmodScale)))) =
        cmpOp.holds (orient flip (compare ((v : ℚ) / 10 ^ inputScale s) q))
  | .int32Char => ∀ cmpOp, mapComparisonNameToQualOp name = some cmpOp →
      let ch := [(row.char col).value]
      FirstBytesDecide T s.typeOid cmpOp (if flip then text else ch) (if flip then ch else text)
  | .stringRef =>
      let v : Bytes := (row.string col).value.val
      let l := if flip then text else v
      let r := if flip then v else text
      if name = .like ∨ name = .notLike then
        like r l = (likeReadAs text).any (percentLike · v)
      else ∀ bytes, T.stringIn s.typeOid s.typmod text = some bytes →
        (v = bytes ↔ T.stringCmp s.typeOid l r = .eq)
  | _ => True

/-- A scaled value fits its type at another scale. -/
def RescaleFits (v : Int) (fromScale toScale : Nat) : Prop :=
  fromScale = toScale ∨ (toScale - fromScale ≤ 18 ∧ fitsInt64 (v * 10 ^ (toScale - fromScale)))

/-- The value of an integer column. -/
def integerValue (row : Row) (col : Nat) : ColumnDecodeKind → Int
  | .int32Int4 => (row.int32 col).value.toInt
  | _ => (row.int64 col).value.toInt

/-- **When the test of a column against a column is right.** Two numerics have to fit at
the larger scale, an integer must keep its place when it is promoted to the scale of a
numeric, and characters are compared by their bytes. -/
def VarReadRight (T : TypeSupport) (sl sr : ColumnSchema) (row : Row) (name : CompareName)
    (left right : Nat) : Prop :=
  match sl.decodeKind, sr.decodeKind with
  | .int32Char, .int32Char => ∀ cmpOp, mapComparisonNameToQualOp name = some cmpOp →
      FirstBytesDecide T sl.typeOid cmpOp [(row.char left).value] [(row.char right).value]
  | .int64NumericScaled, .int64NumericScaled =>
      let scale := max (inputScale sl) (inputScale sr)
      RescaleFits (row.int64 left).value.toInt (inputScale sl) scale ∧
        RescaleFits (row.int64 right).value.toInt (inputScale sr) scale
  | .int64NumericScaled, _ => ∀ cmpOp, mapComparisonNameToQualOp name = some cmpOp →
      let v : Int := (row.int64 left).value.toInt
      let i := integerValue row right sr.decodeKind
      cmpOp.holds (compare v ((i * 10 ^ inputScale sl).bmod (2 ^ 64))) =
        cmpOp.holds (compare ((v : ℚ) / 10 ^ inputScale sl) i)
  | _, .int64NumericScaled => ∀ cmpOp, mapComparisonNameToQualOp name = some cmpOp →
      let i := integerValue row left sl.decodeKind
      let v : Int := (row.int64 right).value.toInt
      cmpOp.holds (compare ((i * 10 ^ inputScale sr).bmod (2 ^ 64)) v) =
        cmpOp.holds (compare (i : ℚ) ((v : ℚ) / 10 ^ inputScale sr))
  | _, _ => True

def operandNull (schema : Schema) (row : Row) : Operand → Bool
  | .column col => (schema col).any fun s => row.isNull col s.decodeKind
  | .constant _ => false

/-- Some operand of the comparison is NULL on the row. -/
def nullOperand (schema : Schema) (row : Row) (c : Compare) : Bool :=
  operandNull schema row c.left || operandNull schema row c.right

/-- **When the lowered test of a comparison is right** under `pos` negations modulo two.
With a NULL operand a test is false and `!~~` is true. -/
def ReadRight (T : TypeSupport) (schema : Schema) (row : Row) (pos : Bool) (c : Compare) : Prop :=
  if nullOperand schema row c then c.name = .notLike ↔ pos = false
  else match c.left, c.right with
    | .column col, .constant value => ∀ s text, schema col = some s → value = some text →
        ConstReadRight T s row c.name col text false
    | .constant value, .column col => ∀ s text, schema col = some s → value = some text →
        ConstReadRight T s row c.name col text true
    | .column left, .column right => ∀ sl sr, schema left = some sl → schema right = some sr →
        VarReadRight T sl sr row c.name left right
    | .constant _, .constant _ => True

/-! ## Orders -/

theorem compare_intCast (a b : Int) : compare (a : ℚ) (b : ℚ) = compare a b := by
  rw [← cmp_eq_compare, ← cmp_eq_compare]
  exact Int.cast_strictMono.cmp_map_eq a b

theorem compare_mul_right (a b : ℚ) {k : ℚ} (hk : 0 < k) : compare (a * k) (b * k) = compare a b := by
  rw [← cmp_eq_compare, ← cmp_eq_compare]
  exact (strictMono_mul_right_of_pos hk).cmp_map_eq a b

theorem compare_swap' {α : Type} [LinearOrder α] (a b : α) : compare b a = (compare a b).swap := by
  rw [← cmp_eq_compare, ← cmp_eq_compare, cmp_swap]

theorem orient_compare {α : Type} [LinearOrder α] (flip : Bool) (a b : α) :
    compare (if flip then b else a) (if flip then a else b) = orient flip (compare a b) := by
  cases flip with
  | false => rfl
  | true => exact compare_swap' a b

theorem mirrorCmpOp_holds {name : CompareName} {cmpOp : QualOp}
    (h : mapComparisonNameToQualOp name = some cmpOp) (o : Ordering) :
    (mirrorCmpOp name cmpOp).holds o = cmpOp.holds o.swap := by
  cases name <;> cases h <;> cases o <;> rfl

/-! ## A column against a literal -/

/-- The tests of a column against a literal. -/
inductive ConstTest (T : TypeSupport) (s : ColumnSchema) (name : CompareName) (col : Nat)
    (text : Bytes) : FilterTest InputRequest → Prop
  | date {cmpOp : QualOp} {value : Int32} (hkind : s.decodeKind = .int32Date)
      (hop : mapComparisonNameToQualOp name = some cmpOp) (hvalue : T.dateIn text = some value) :
      ConstTest T s name col text (.int32CmpConst cmpOp (.own col) value)
  | int4 {cmpOp : QualOp} {value : Int32} (hkind : s.decodeKind = .int32Int4)
      (hop : mapComparisonNameToQualOp name = some cmpOp) (hvalue : T.int4In text = some value) :
      ConstTest T s name col text (.int32CmpConst cmpOp (.own col) value)
  | char {cmpOp : QualOp} {ch : UInt8} (hkind : s.decodeKind = .int32Char)
      (hop : mapComparisonNameToQualOp name = some cmpOp) (hvalue : text.head? = some ch) :
      ConstTest T s name col text (.int32CmpConst cmpOp (.own col) (Int32.ofNat ch.toNat))
  | int8 {cmpOp : QualOp} {value : Int64} (hkind : s.decodeKind = .int64Int8)
      (hop : mapComparisonNameToQualOp name = some cmpOp) (hvalue : T.int8In text = some value) :
      ConstTest T s name col text (.int64CmpConst cmpOp (.own col) value)
  | numeric {cmpOp : QualOp} {value : Int64} (hkind : s.decodeKind = .int64NumericScaled)
      (hop : mapComparisonNameToQualOp name = some cmpOp)
      (hvalue : scaleNumericConstantToTargetScale T text
        (toInt8 (extractNumericTypmodScale s.typmod)) = some value) :
      ConstTest T s name col text (.int64CmpConst cmpOp (.own col) value)
  | eq {bytes : Bytes} (hkind : s.decodeKind = .stringRef) (hname : name = .eq)
      (hvalue : T.stringIn s.typeOid s.typmod text = some bytes) :
      ConstTest T s name col text (.stringConst .eqConst (.own col) bytes)
  | ne {bytes : Bytes} (hkind : s.decodeKind = .stringRef) (hname : name = .ne)
      (hvalue : T.stringIn s.typeOid s.typmod text = some bytes) :
      ConstTest T s name col text (.stringConst .neConst (.own col) bytes)
  | like {t : FilterTest InputRequest} (hkind : s.decodeKind = .stringRef)
      (hname : name = .like ∨ name = .notLike) (hvalue : buildLikeTest col text = some t) :
      ConstTest T s name col text t

theorem buildConst_spec {T : TypeSupport} {schema : Schema} {name : CompareName} {col : Nat}
    {value : Option Bytes} {t : FilterTest InputRequest}
    (h : buildConst T schema name col value = some t) :
    ∃ s text, schema col = some s ∧ value = some text ∧ ConstTest T s name col text t := by
  obtain ⟨s, hs, h⟩ := Option.bind_eq_some_iff.1 h
  obtain ⟨text, htext, h⟩ := Option.bind_eq_some_iff.1 h
  refine ⟨s, text, hs, htext, ?_⟩
  cases hkind : s.decodeKind with
  | int32Date =>
    simp only [hkind] at h
    obtain ⟨v, hv, h⟩ := Option.bind_eq_some_iff.1 h
    obtain ⟨cmpOp, hop, h⟩ := Option.bind_eq_some_iff.1 h
    cases h
    exact .date hkind hop hv
  | int32Int4 =>
    simp only [hkind] at h
    obtain ⟨v, hv, h⟩ := Option.bind_eq_some_iff.1 h
    obtain ⟨cmpOp, hop, h⟩ := Option.bind_eq_some_iff.1 h
    cases h
    exact .int4 hkind hop hv
  | int32Char =>
    simp only [hkind] at h
    obtain ⟨ch, hch, h⟩ := Option.bind_eq_some_iff.1 h
    obtain ⟨cmpOp, hop, h⟩ := Option.bind_eq_some_iff.1 h
    cases h
    refine .char hkind hop ?_
    cases text with
    | nil => cases hch
    | cons c text =>
      cases hch
      rfl
  | int64Int8 =>
    simp only [hkind] at h
    obtain ⟨v, hv, h⟩ := Option.bind_eq_some_iff.1 h
    obtain ⟨cmpOp, hop, h⟩ := Option.bind_eq_some_iff.1 h
    cases h
    exact .int8 hkind hop hv
  | int64NumericScaled =>
    simp only [hkind] at h
    obtain ⟨v, hv, h⟩ := Option.bind_eq_some_iff.1 h
    obtain ⟨cmpOp, hop, h⟩ := Option.bind_eq_some_iff.1 h
    cases h
    exact .numeric hkind hop hv
  | stringRef =>
    simp only [hkind] at h
    cases name with
    | eq =>
      obtain ⟨bytes, hbytes, h⟩ := Option.bind_eq_some_iff.1 h
      cases h
      exact .eq hkind rfl hbytes
    | ne =>
      obtain ⟨bytes, hbytes, h⟩ := Option.bind_eq_some_iff.1 h
      cases h
      exact .ne hkind rfl hbytes
    | like => exact .like hkind (.inl rfl) h
    | notLike => exact .like hkind (.inr rfl) h
    | lt => cases h
    | le => cases h
    | ge => cases h
    | gt => cases h
  | doubleFloat8 =>
    simp only [hkind] at h
    cases h

/-- A comparison of a column and a literal, the literal on the left for `flip`. -/
def constCompare (flip : Bool) (name : CompareName) (col : Nat) (text : Bytes) : Compare :=
  if flip then ⟨name, .constant (some text), .column col⟩ else ⟨name, .column col, .constant (some text)⟩

def orientTest {α : Type} (flip : Bool) (name : CompareName) (t : FilterTest α) : FilterTest α :=
  if flip then t.mirror name else t

def orientOp (flip : Bool) (name : CompareName) (cmpOp : QualOp) : QualOp :=
  if flip then mirrorCmpOp name cmpOp else cmpOp

theorem orientOp_holds {name : CompareName} {cmpOp : QualOp}
    (h : mapComparisonNameToQualOp name = some cmpOp) (flip : Bool) (o : Ordering) :
    (orientOp flip name cmpOp).holds o = cmpOp.holds (orient flip o) := by
  cases flip with
  | false => rfl
  | true => exact mirrorCmpOp_holds h o

theorem orientTest_int32CmpConst {α : Type} (flip : Bool) (name : CompareName) (cmpOp : QualOp)
    (left : α) (value : Int32) : orientTest flip name (.int32CmpConst cmpOp left value) =
      .int32CmpConst (orientOp flip name cmpOp) left value := by
  cases flip <;> rfl

theorem orientTest_int64CmpConst {α : Type} (flip : Bool) (name : CompareName) (cmpOp : QualOp)
    (left : α) (value : Int64) : orientTest flip name (.int64CmpConst cmpOp left value) =
      .int64CmpConst (orientOp flip name cmpOp) left value := by
  cases flip <;> rfl

theorem orientTest_stringConst {α : Type} (flip : Bool) (name : CompareName) (op : StringTest)
    (left : α) (bytes : Bytes) :
    orientTest flip name (.stringConst op left bytes) = .stringConst op left bytes := by
  cases flip <;> rfl

section Const
variable {T : TypeSupport} {schema : Schema} {row : Row} {s : ColumnSchema} {name : CompareName}
  {col : Nat} {text : Bytes} {flip : Bool}

theorem nullOperand_const (hs : schema col = some s) :
    nullOperand schema row (constCompare flip name col text) = row.isNull col s.decodeKind := by
  cases flip <;> simp [constCompare, nullOperand, operandNull, hs]

theorem columnValue_eq {v : SqlValue} (hs : schema col = some s) (hv : cellValue row col s = some v) :
    columnValue schema row col = if row.isNull col s.decodeKind then none else some v := by
  rw [columnValue, hs, ← hv]
  rfl

theorem sqlTest_const {v k : SqlValue} (hs : schema col = some s)
    (hv : cellValue row col s = some v)
    (hk : constantValue T schema col (some text) = some k) :
    sqlTest T schema row (constCompare flip name col text) =
      if row.isNull col s.decodeKind then .unknown
      else match sqlAnswer T name (if flip then k else v) (if flip then v else k) with
        | some b => .ofBool b
        | none => .unknown := by
  have hval := columnValue_eq hs hv
  cases hnull : row.isNull col s.decodeKind <;> rw [hnull] at hval <;> cases flip <;>
    simp [sqlTest, sqlOperands, constCompare, hval, hk]

theorem sqlAnswer_cmp {cmpOp : QualOp} (hop : mapComparisonNameToQualOp name = some cmpOp)
    (l r : SqlValue) : sqlAnswer T name l r = (sqlOrder T l r).map cmpOp.holds := by
  cases name <;> cases hop <;> rfl

end Const

/-- What a lowered comparison answers beside NULL, and its SQL value. -/
structure Reads (T : TypeSupport) (schema : Schema) (row : Row) (c : Compare)
    (answer : Except FilterError Bool) (x : Bool) : Prop where
  reading : (scanLowering T schema).reading schema (filterEvaluator row) c =
    if nullOperand schema row c then .ok (c.name == .notLike) else answer
  sql : sqlTest T schema row c = if nullOperand schema row c then .unknown else .ofBool x

theorem Reads.readsAs_iff {T : TypeSupport} {schema : Schema} {row : Row} {c : Compare}
    {answer : Except FilterError Bool} {x : Bool} (h : Reads T schema row c answer x) (pos : Bool) :
    ReadsAs ((scanLowering T schema).reading schema (filterEvaluator row)) (sqlTest T schema row)
        pos c ↔
      if nullOperand schema row c then c.name = .notLike ↔ pos = false else answer = .ok x := by
  rw [ReadsAs, h.reading, h.sql]
  cases nullOperand schema row c with
  | true =>
    simp only [if_pos, Truth.holds_unknown, Except.ok.injEq]
    cases pos <;> simp
  | false => simp only [Bool.false_eq_true, if_false, Truth.holds_ofBool]

/-! ## LIKE patterns as they are read -/

/-- Searching tokens in a pattern that ends in `%`, from a place where the text is
free to continue. -/
theorem matchTokens_isSome_iff {pattern : Bytes} {anchored first : Bool}
    (hfirst : first = false ∨ anchored = false) (hend : pattern.getLast? = some percent)
    {token : Bytes} (htok : percent ∉ token) (rest : Bytes) :
    (matchTokens anchored pattern token first rest).isSome =
      percentLike (percent :: (token ++ pattern)) rest := by
  induction pattern generalizing token rest first with
  | nil => cases hend
  | cons c pattern ih =>
    have hstep : ∀ token rest, matchToken anchored first token rest =
        if token = [] then some rest else afterFirst token rest := by
      intro token rest
      rcases hfirst with rfl | rfl <;> simp [matchToken]
    have hfirst' : ∀ b, (first && b) = false ∨ anchored = false := by
      intro b
      rcases hfirst with rfl | h
      · exact .inl rfl
      · exact .inr h
    rw [matchTokens]
    by_cases hc : c = percent
    · subst hc
      rw [if_pos rfl, hstep]
      -- What is left behind the token has to match what follows the `%`.
      have hnext : ∀ rest', (matchTokens anchored pattern [] (first && token.isEmpty) rest').isSome =
          percentLike (percent :: pattern) rest' := by
        intro rest'
        cases pattern with
        | nil =>
          rw [matchTokens, percentLike_percent_self]
          simp [matchToken]
        | cons d pattern =>
          rw [List.getLast?_cons_cons] at hend
          exact ih (hfirst' _) hend List.not_mem_nil rest'
      by_cases htoken : token = []
      · subst htoken
        rw [if_pos rfl, List.nil_append, percentLike_percent_percent]
        exact hnext rest
      · rw [if_neg htoken, Bool.eq_iff_iff, percentLike_token_iff htok]
        cases hafter : afterFirst token rest with
        | none => simp
        | some rest' =>
          rw [Option.bind_eq_bind, Option.bind_some, hnext]
          simp
    · rw [if_neg hc]
      have htok' : percent ∉ token ++ [c] := by
        rw [List.mem_append, List.mem_singleton, not_or]
        exact ⟨htok, fun h => hc h.symm⟩
      cases pattern with
      | nil =>
        rw [List.getLast?_singleton, Option.some.injEq] at hend
        exact absurd hend hc
      | cons d pattern =>
        rw [List.getLast?_cons_cons] at hend
        rw [ih hfirst hend htok', List.append_assoc, List.singleton_append]

/-- The first token of an anchored pattern. -/
theorem matchTokens_anchored {pattern : Bytes} (hend : pattern.getLast? = some percent)
    {token : Bytes} (htok : percent ∉ token)
    (hstart : token ≠ [] ∨ pattern.head? ≠ some percent) (rest : Bytes) :
    (matchTokens true pattern token true rest).isSome = percentLike (token ++ pattern) rest := by
  induction pattern generalizing token with
  | nil => cases hend
  | cons c pattern ih =>
    rw [matchTokens]
    by_cases hc : c = percent
    · subst hc
      have htoken : token ≠ [] := hstart.resolve_right fun h => h rfl
      have hempty : token.isEmpty = false := by
        cases token with
        | nil => exact absurd rfl htoken
        | cons d token => rfl
      rw [if_pos rfl, matchToken, if_neg htoken, hempty, Bool.and_self, Bool.and_false, if_pos rfl,
        Bool.eq_iff_iff, percentLike_append_iff htok]
      have hnext : ∀ rest', (matchTokens true pattern [] false rest').isSome =
          percentLike (percent :: pattern) rest' := by
        intro rest'
        cases pattern with
        | nil =>
          rw [matchTokens, percentLike_percent_self]
          simp [matchToken]
        | cons d pattern =>
          rw [List.getLast?_cons_cons] at hend
          exact matchTokens_isSome_iff (.inl rfl) hend List.not_mem_nil rest'
      by_cases hpre : token <+: rest
      · obtain ⟨back, rfl⟩ := hpre
        rw [if_pos (List.prefix_append _ _), Option.bind_eq_bind, Option.bind_some, List.drop_left,
          hnext]
        simp
      · rw [if_neg hpre]
        constructor
        · intro h
          cases h
        · rintro ⟨back, rfl, -⟩
          exact absurd (List.prefix_append _ _) hpre
    · rw [if_neg hc]
      have htok' : percent ∉ token ++ [c] := by
        rw [List.mem_append, List.mem_singleton, not_or]
        exact ⟨htok, fun h => hc h.symm⟩
      cases pattern with
      | nil =>
        rw [List.getLast?_singleton, Option.some.injEq] at hend
        exact absurd hend hc
      | cons d pattern =>
        rw [List.getLast?_cons_cons] at hend
        rw [ih hend htok' (.inl (by simp)), List.append_assoc, List.singleton_append]

/-- **Greedy matching of a pattern that ends in `%` is right.** -/
theorem matchTokens_eq_percentLike {pattern : Bytes} (hend : pattern.getLast? = some percent)
    (lhs : Bytes) :
    (matchTokens (pattern.head? != some percent) pattern [] true lhs).isSome =
      percentLike pattern lhs := by
  by_cases hstart : pattern.head? = some percent
  · have hanchored : (pattern.head? != some percent) = false := by simp [hstart]
    rw [matchTokens_isSome_iff (.inr hanchored) hend List.not_mem_nil]
    obtain ⟨p, rfl⟩ : ∃ p, pattern = percent :: p := by
      cases pattern with
      | nil => cases hstart
      | cons c p =>
        cases hstart
        exact ⟨p, rfl⟩
    exact percentLike_percent_percent p lhs
  · have hanchored : (pattern.head? != some percent) = true := by simp [hstart]
    rw [hanchored]
    exact matchTokens_anchored hend List.not_mem_nil (.inr hstart) lhs

theorem matchPercentLikePattern_of_end {pattern : Bytes} (hend : pattern.getLast? = some percent)
    (lhs : Bytes) : matchPercentLikePattern lhs pattern = percentLike pattern lhs := by
  have hne : pattern ≠ [] := by
    rintro rfl
    cases hend
  have hlast : (pattern.getLast? != some percent) = false := by simp [hend]
  rw [← matchTokens_eq_percentLike hend, matchPercentLikePattern, if_neg hne]
  cases matchTokens (pattern.head? != some percent) pattern [] true lhs with
  | none => rfl
  | some rest => rw [hlast]; rfl

/-- The length of the trailing text wraps round, so no text is long enough. -/
theorem matchPercentLikePattern_of_not_end {pattern lhs : Bytes} (hne : pattern ≠ [])
    (hend : pattern.getLast? ≠ some percent) (hlen : lhs.length ≤ 65536) :
    matchPercentLikePattern lhs pattern = false := by
  have hlast : (pattern.getLast? != some percent) = true := by simp [hend]
  rw [matchPercentLikePattern, if_neg hne]
  cases matchTokens (pattern.head? != some percent) pattern [] true lhs with
  | none => rfl
  | some rest =>
    have hwrap : (pattern.length + 2 ^ 32 - (pattern.length + 1)) % 2 ^ 32 = 2 ^ 32 - 1 := by omega
    simp only [hlast, if_true, hwrap]
    rw [if_pos (by omega)]

/-- The test of a LIKE pattern that holds a `%`, by what stands around its first one. -/
theorem tryExtractLikePattern_append {front back : Bytes} (hfront : percent ∉ front)
    (hus : underscore ∉ front ++ percent :: back) :
    tryExtractLikePattern (front ++ percent :: back) =
      if back = [] then some (true, front)
      else if front = [] then
        if percent ∉ back then some (false, back)
        else if back.getLast? = some percent ∧ percent ∉ back.dropLast ∧ back.dropLast ≠ [] then
          some (false, back.dropLast)
        else none
      else none := by
  have hidx : (front ++ percent :: back).idxOf percent = front.length := by
    rw [List.idxOf_append_of_notMem hfront, List.idxOf_cons_self, Nat.add_zero]
  have hmem : ¬ percent ∉ front ++ percent :: back := not_not.2 (by simp)
  have hdrop : (front ++ percent :: back).drop (front.length + 1) = back := by simp
  simp only [tryExtractLikePattern, hidx, if_neg hus, if_neg hmem, hdrop]
  by_cases hback : back = []
  · subst hback
    simp
  · have hlen : front.length ≠ (front ++ percent :: back).length - 1 := by
      have := List.length_pos_iff.2 hback
      simp only [List.length_append, List.length_cons]
      omega
    rw [if_neg hback, if_neg (fun h => hlen h.2)]
    cases front with
    | nil =>
      simp only [List.length_nil, and_true, if_true, List.nil_append]
      by_cases hpct : percent ∈ back
      · have htake : (List.drop 1 (percent :: back)).take ((percent :: back).length - 2) =
            back.dropLast := by
          rw [List.drop_one, List.tail_cons, List.dropLast_eq_take, List.length_cons]
          rfl
        have hlast : (percent :: back).getLast? = back.getLast? := by
          cases back with
          | nil => exact absurd rfl hback
          | cons c back => rfl
        have htwo : 2 ≤ (percent :: back).length := by
          have := List.length_pos_iff.2 hback
          rw [List.length_cons]
          omega
        simp only [hpct, not_true_eq_false, if_false, htake, hlast, htwo, List.head?_cons, true_and]
        by_cases hend : back.getLast? = some percent ∧ percent ∉ back.dropLast
        · rw [if_pos hend]
          by_cases hempty : back.dropLast = []
          · rw [if_neg (not_not.2 hempty), if_neg (fun h => h.2.2 hempty)]
          · rw [if_pos hempty, if_pos ⟨hend.1, hend.2, hempty⟩]
        · rw [if_neg hend, if_neg (fun h => hend ⟨h.1, h.2.1⟩)]
      · simp [hpct, hback]
    | cons c front =>
      have hc : c ≠ percent := by
        rintro rfl
        exact hfront List.mem_cons_self
      simp [hc]

theorem likeReadAs_append {front back : Bytes} (hfront : percent ∉ front) :
    likeReadAs (front ++ percent :: back) =
      if front = [] ∧ percent ∉ back ∧ back ≠ [] then some (percent :: (back ++ [percent]))
      else if (percent :: back).getLast? = some percent then some (front ++ percent :: back)
      else none := by
  have hmem : ¬ percent ∉ front ++ percent :: back := not_not.2 (by simp)
  rw [likeReadAs, if_neg hmem]
  cases front with
  | nil => simp
  | cons c front =>
    have hc : c ≠ percent := by
      rintro rfl
      exact hfront List.mem_cons_self
    have hlast : (c :: front ++ percent :: back).getLast? = (percent :: back).getLast? := by
      rw [List.getLast?_append_of_ne_nil _ (List.cons_ne_nil _ _)]
    rw [hlast]
    simp [hc]

/-- The search for a string at every place of a text. -/
theorem any_isPrefixOf_iff (bytes lhs : Bytes) :
    lhs.tails.any (bytes.isPrefixOf ·) = true ↔ bytes <:+: lhs := by
  rw [List.any_eq_true, List.infix_iff_prefix_suffix]
  constructor
  · rintro ⟨rest, hrest, hpre⟩
    exact ⟨rest, List.isPrefixOf_iff_prefix.1 hpre, List.mem_tails _ _ |>.1 hrest⟩
  · rintro ⟨rest, hpre, hrest⟩
    exact ⟨rest, List.mem_tails _ _ |>.2 hrest, List.isPrefixOf_iff_prefix.2 hpre⟩

/-- The test of a LIKE pattern: a search for a string, or for tokens where the pattern
is left as it is. -/
def LikeShape (pattern : Bytes) (op : StringTest) (bytes : Bytes) : Prop :=
  ((op = .prefixLike ∨ op = .containsLike) ∧ (likeReadAs pattern).isSome) ∨
    (op = .sqlLike ∧ bytes = pattern ∧ pattern ≠ [] ∧
      likeReadAs pattern = if pattern.getLast? = some percent then some pattern else none)

/-- **A LIKE test matches the pattern it is read as.** -/
theorem buildLikeTest_spec {col : Nat} {pattern : Bytes} {t : FilterTest InputRequest}
    (h : buildLikeTest col pattern = some t) :
    ∃ op bytes, t = .stringConst op (.own col) bytes ∧ LikeShape pattern op bytes ∧
      ∀ (row : Row) (lhs : StoredString), (filterEvaluator row).evalString op lhs.val bytes =
        (likeReadAs pattern).any (percentLike · lhs.val) := by
  have hus : underscore ∉ pattern := by
    intro hus
    simp [buildLikeTest, tryExtractLikePattern, hus] at h
  by_cases hpct : percent ∈ pattern
  · obtain ⟨front, back, rfl, hfront⟩ := List.eq_append_cons_of_mem hpct
    have hsql : likeReadAs (front ++ percent :: back) =
        (if (front ++ percent :: back).getLast? = some percent then some (front ++ percent :: back)
          else none) → ∀ (row : Row) (lhs : StoredString),
        (filterEvaluator row).evalString .sqlLike lhs.val (front ++ percent :: back) =
          (likeReadAs (front ++ percent :: back)).any (percentLike · lhs.val) := by
      intro hread row lhs
      rw [hread]
      show matchPercentLikePattern lhs.val _ = _
      by_cases hend : (front ++ percent :: back).getLast? = some percent
      · rw [if_pos hend, matchPercentLikePattern_of_end hend]
        rfl
      · rw [if_neg hend, matchPercentLikePattern_of_not_end (by simp) hend lhs.property]
        rfl
    have hread := @likeReadAs_append front back hfront
    rw [buildLikeTest, tryExtractLikePattern_append hfront hus] at h
    by_cases hback : back = []
    · subst hback
      rw [if_pos rfl] at h
      cases h
      rw [if_neg (fun h => h.2.2 rfl), if_pos List.getLast?_singleton] at hread
      refine ⟨_, _, rfl, .inl ⟨.inl rfl, by rw [hread]; rfl⟩, ?_⟩
      intro row lhs
      rw [hread, Bool.eq_iff_iff, Option.any_some, percentLike_prefix_iff hfront]
      exact List.isPrefixOf_iff_prefix
    · rw [if_neg hback] at h
      have hlast : (percent :: back).getLast? = back.getLast? := by
        cases back with
        | nil => exact absurd rfl hback
        | cons c back => rfl
      by_cases hempty : front = []
      · subst hempty
        rw [if_pos rfl] at h
        by_cases hin : percent ∈ back
        · rw [if_neg (not_not.2 hin)] at h
          rw [if_neg (fun h => h.2.1 hin)] at hread
          by_cases hend : back.getLast? = some percent ∧ percent ∉ back.dropLast ∧
              back.dropLast ≠ []
          · rw [if_pos hend] at h
            cases h
            rw [hlast, if_pos hend.1] at hread
            refine ⟨_, _, rfl, .inl ⟨.inr rfl, by rw [hread]; rfl⟩, ?_⟩
            intro row lhs
            have hsplit : back = back.dropLast ++ [percent] :=
              (List.dropLast_append_getLast? percent hend.1).symm
            rw [hread, Bool.eq_iff_iff, Option.any_some, List.nil_append]
            rw [show percentLike (percent :: back) lhs.val = _ from
              congrArg (fun b => percentLike (percent :: b) lhs.val) hsplit,
              percentLike_infix_iff hend.2.1]
            exact any_isPrefixOf_iff _ _
          · rw [if_neg hend] at h
            rw [if_neg hus] at h
            cases h
            exact ⟨_, _, rfl, .inr ⟨rfl, rfl, by simp, hread⟩, hsql hread⟩
        · rw [if_pos hin] at h
          cases h
          rw [if_pos ⟨rfl, hin, hback⟩] at hread
          refine ⟨_, _, rfl, .inl ⟨.inr rfl, by rw [hread]; rfl⟩, ?_⟩
          intro row lhs
          rw [hread, Bool.eq_iff_iff, Option.any_some, percentLike_infix_iff hin]
          exact any_isPrefixOf_iff _ _
      · rw [if_neg hempty] at h
        rw [if_neg hus] at h
        cases h
        have hwhole : likeReadAs (front ++ percent :: back) =
            if (front ++ percent :: back).getLast? = some percent then
              some (front ++ percent :: back)
            else none := by
          rw [hread, if_neg (fun h => hempty h.1), List.getLast?_append_of_ne_nil _ (by simp)]
        exact ⟨_, _, rfl, .inr ⟨rfl, rfl, by simp, hwhole⟩, hsql hwhole⟩
  · have hextract : tryExtractLikePattern pattern = some (true, pattern) := by
      simp [tryExtractLikePattern, hus, hpct]
    rw [buildLikeTest, hextract] at h
    cases h
    have hread : likeReadAs pattern = some (pattern ++ [percent]) := if_pos hpct
    refine ⟨_, _, rfl, .inl ⟨.inl rfl, by rw [hread]; rfl⟩, ?_⟩
    intro row lhs
    rw [hread, Bool.eq_iff_iff, Option.any_some, percentLike_prefix_iff hpct]
    exact List.isPrefixOf_iff_prefix

/-! ## Readings of a column against a literal -/

theorem reading_of_test {L : Lowering} {schema : Schema} {E : Evaluator} {c : Compare}
    {t : FilterTest InputRequest} {td : FilterTest FilterInputDesc} (ht : L.test c = some t)
    (htd : t.lookup (requestDesc schema) = some td) :
    L.reading schema E c = E.evalTest td >>= fun b => .ok (b ^^ (c.name == .notLike)) := by
  rw [Lowering.reading, ht, Option.bind_some, htd]

/-- A test whose answer is false for NULL. -/
theorem reads_of_answer {T : TypeSupport} {schema : Schema} {row : Row} {c : Compare}
    {t : FilterTest InputRequest} {td : FilterTest FilterInputDesc} {b x : Bool}
    (ht : (scanLowering T schema).test c = some t) (htd : t.lookup (requestDesc schema) = some td)
    (heval : (filterEvaluator row).evalTest td = .ok (!nullOperand schema row c && b))
    (hsql : sqlTest T schema row c = if nullOperand schema row c then .unknown else .ofBool x) :
    Reads T schema row c (.ok (b ^^ (c.name == .notLike))) x := by
  refine ⟨?_, hsql⟩
  rw [reading_of_test ht htd, heval]
  cases nullOperand schema row c with
  | true => exact congrArg Except.ok (Bool.false_xor _)
  | false => rfl

theorem name_ne_notLike {name : CompareName} {cmpOp : QualOp}
    (h : mapComparisonNameToQualOp name = some cmpOp) : (name == .notLike) = false := by
  cases name <;> cases h <;> rfl

theorem constCompare_name (flip : Bool) (name : CompareName) (col : Nat) (text : Bytes) :
    (constCompare flip name col text).name = name := by
  cases flip <;> rfl

theorem toInt_ofByte (b : UInt8) : (Int32.ofNat b.toNat).toInt = b.toNat := by
  have hlt := b.toNat_lt
  exact Int32.toInt_ofNat_of_lt (by omega)

theorem scaleNumericConstant_spec {T : TypeSupport} {text : Bytes} {scale : Int} {value : Int64}
    (h : scaleNumericConstantToTargetScale T text scale = some value) :
    ∃ q, T.numericIn text = some q ∧ value.toInt = roundHalfAway (q * 10 ^ scale.toNat) := by
  obtain ⟨q, hq, h⟩ := Option.bind_eq_some_iff.1 h
  obtain ⟨factor, hfactor, h⟩ := Option.bind_eq_some_iff.1 h
  refine ⟨q, hq, ?_⟩
  rw [pow10Int64] at hfactor
  split at hfactor
  · cases hfactor
  · cases hfactor
    dsimp only at h
    split at h
    · next hfits =>
      cases h
      simp only [fitsInt64, Bool.and_eq_true, decide_eq_true_eq] at hfits
      rw [Int64.toInt_ofInt_of_le hfits.1 hfits.2]
      push_cast
      rfl
    · cases h

section ConstReads
variable {T : TypeSupport} {schema : Schema} {row : Row} {s : ColumnSchema} {name : CompareName}
  {col : Nat} {text : Bytes} {flip : Bool}

theorem lookup_own (hs : schema col = some s) :
    requestDesc schema (.own col) = some (ownDesc col s) := by
  rw [requestDesc, hs]
  rfl

/-- A comparison of an `int32` input with a constant. -/
theorem reads_int32CmpConst {cmpOp : QualOp} {value : Int32} {x : Bool} (hs : schema col = some s)
    (hop : mapComparisonNameToQualOp name = some cmpOp)
    (ht : (scanLowering T schema).test (constCompare flip name col text) =
      some (orientTest flip name (.int32CmpConst cmpOp (.own col) value)))
    (hsql : sqlTest T schema row (constCompare flip name col text) =
      if row.isNull col s.decodeKind then .unknown else .ofBool x) :
    Reads T schema row (constCompare flip name col text)
      (.ok (cmpOp.holds (orient flip (compare (row.getInt32 col s.decodeKind).toInt value.toInt))))
      x := by
  rw [orientTest_int32CmpConst] at ht
  have htd : (FilterTest.int32CmpConst (orientOp flip name cmpOp) (.own col) value).lookup
      (requestDesc schema) =
        some (.int32CmpConst (orientOp flip name cmpOp) (ownDesc col s) value) := by
    rw [(FilterTest.lookup_one _ _).1, lookup_own hs]
    rfl
  have heval : (filterEvaluator row).evalTest
      (.int32CmpConst (orientOp flip name cmpOp) (ownDesc col s) value) =
        .ok (!nullOperand schema row (constCompare flip name col text) &&
          cmpOp.holds (orient flip (compare (row.getInt32 col s.decodeKind).toInt value.toInt))) := by
    rw [nullOperand_const hs, ← orientOp_holds hop]
    rfl
  rw [← @nullOperand_const schema row s name col text flip hs] at hsql
  have h := reads_of_answer ht htd heval hsql
  rw [constCompare_name, name_ne_notLike hop, Bool.xor_false] at h
  exact h

/-- A comparison of an `int64` input with a constant. -/
theorem reads_int64CmpConst {cmpOp : QualOp} {value : Int64} {x : Bool} (hs : schema col = some s)
    (hkind : s.decodeKind = .int64Int8 ∨ s.decodeKind = .int64NumericScaled)
    (hop : mapComparisonNameToQualOp name = some cmpOp)
    (ht : (scanLowering T schema).test (constCompare flip name col text) =
      some (orientTest flip name (.int64CmpConst cmpOp (.own col) value)))
    (hsql : sqlTest T schema row (constCompare flip name col text) =
      if row.isNull col s.decodeKind then .unknown else .ofBool x) :
    Reads T schema row (constCompare flip name col text)
      (.ok (cmpOp.holds (orient flip (compare (row.int64 col).value.toInt value.toInt)))) x := by
  rw [orientTest_int64CmpConst] at ht
  have htd : (FilterTest.int64CmpConst (orientOp flip name cmpOp) (.own col) value).lookup
      (requestDesc schema) =
        some (.int64CmpConst (orientOp flip name cmpOp) (ownDesc col s) value) := by
    rw [(FilterTest.lookup_one _ _).2.1, lookup_own hs]
    rfl
  have hval : populateInt64 row (ownDesc col s) = (row.int64 col).value := by
    rcases hkind with hkind | hkind <;> simp [populateInt64, ownDesc, hkind]
  have heval : (filterEvaluator row).evalTest
      (.int64CmpConst (orientOp flip name cmpOp) (ownDesc col s) value) =
        .ok (!nullOperand schema row (constCompare flip name col text) &&
          cmpOp.holds (orient flip (compare (row.int64 col).value.toInt value.toInt))) := by
    rw [nullOperand_const hs, ← orientOp_holds hop, ← hval]
    rfl
  rw [← @nullOperand_const schema row s name col text flip hs] at hsql
  have h := reads_of_answer ht htd heval hsql
  rw [constCompare_name, name_ne_notLike hop, Bool.xor_false] at h
  exact h

/-- A test of a string against a constant. -/
theorem reads_stringConst {op : StringTest} {bytes : Bytes} {x : Bool} (hs : schema col = some s)
    (ht : (scanLowering T schema).test (constCompare flip name col text) =
      some (orientTest flip name (.stringConst op (.own col) bytes)))
    (hsql : sqlTest T schema row (constCompare flip name col text) =
      if row.isNull col s.decodeKind then .unknown else .ofBool x) :
    Reads T schema row (constCompare flip name col text)
      (.ok ((filterEvaluator row).evalString op (row.string col).value.val bytes ^^
        (name == .notLike))) x := by
  rw [orientTest_stringConst] at ht
  have htd : (FilterTest.stringConst op (.own col) bytes).lookup (requestDesc schema) =
      some (.stringConst op (ownDesc col s) bytes) := by
    rw [(FilterTest.lookup_one _ _).2.2, lookup_own hs]
    rfl
  have heval : (filterEvaluator row).evalTest (.stringConst op (ownDesc col s) bytes) =
      .ok (!nullOperand schema row (constCompare flip name col text) &&
        (filterEvaluator row).evalString op (row.string col).value.val bytes) := by
    rw [nullOperand_const hs]
    rfl
  rw [← @nullOperand_const schema row s name col text flip hs] at hsql
  have h := reads_of_answer ht htd heval hsql
  rw [constCompare_name] at h
  exact h

/-- The SQL value of a comparison with a literal, for an operator. -/
theorem sqlTest_const_cmp {cmpOp : QualOp} {v k : SqlValue} {o : Ordering}
    (hs : schema col = some s) (hop : mapComparisonNameToQualOp name = some cmpOp)
    (hv : cellValue row col s = some v)
    (hk : constantValue T schema col (some text) = some k)
    (ho : sqlOrder T (if flip then k else v) (if flip then v else k) = some o) :
    sqlTest T schema row (constCompare flip name col text) =
      if row.isNull col s.decodeKind then .unknown else .ofBool (cmpOp.holds o) := by
  rw [sqlTest_const hs hv hk, sqlAnswer_cmp hop, ho]
  rfl

theorem sqlOrder_number (T : TypeSupport) (flip : Bool) (a b : ℚ) :
    sqlOrder T (if flip then .number b else .number a) (if flip then .number a else .number b) =
      some (orient flip (compare a b)) := by
  rw [← orient_compare]
  cases flip <;> rfl

theorem sqlOrder_date (T : TypeSupport) (flip : Bool) (a b : Int) :
    sqlOrder T (if flip then .date b else .date a) (if flip then .date a else .date b) =
      some (orient flip (compare a b)) := by
  rw [← orient_compare]
  cases flip <;> rfl

theorem sqlOrder_text (T : TypeSupport) (flip : Bool) (oid : Nat) (a b : Bytes) :
    sqlOrder T (if flip then .text oid b else .text oid a)
        (if flip then .text oid a else .text oid b) =
      some (T.stringCmp oid (if flip then b else a) (if flip then a else b)) := by
  cases flip <;> rfl

theorem sqlLike_text (flip : Bool) (oid : Nat) (a b : Bytes) :
    sqlLike (if flip then .text oid b else .text oid a) (if flip then .text oid a else .text oid b) =
      some (like (if flip then a else b) (if flip then b else a)) := by
  cases flip <;> rfl

end ConstReads

/-- **The readings of a column against a literal**, and when they are right. -/
theorem ConstTest.reads {T : TypeSupport} {schema : Schema} {s : ColumnSchema}
    {name : CompareName} {col : Nat} {text : Bytes} {t : FilterTest InputRequest}
    (h : ConstTest T s name col text t) (row : Row) {flip : Bool} (hs : schema col = some s)
    (ht : (scanLowering T schema).test (constCompare flip name col text) =
      some (orientTest flip name t)) :
    ∃ answer x, Reads T schema row (constCompare flip name col text) answer x ∧
      (answer = .ok x ↔ ConstReadRight T s row name col text flip) := by
  cases h with
  | @date cmpOp value hkind hop hvalue =>
    have hv : cellValue row col s = some (.date (row.int32 col).value.toInt) := by
      rw [cellValue, hkind]
    have hk : constantValue T schema col (some text) = some (.date value.toInt) := by
      simp [constantValue, hs, hkind, hvalue]
    have hsql := sqlTest_const_cmp hs hop hv hk (sqlOrder_date T flip _ _)
    refine ⟨_, _, reads_int32CmpConst hs hop ht hsql, ?_⟩
    simp [ConstReadRight, hkind, Row.getInt32]
  | @int4 cmpOp value hkind hop hvalue =>
    have hv : cellValue row col s = some (.number (row.int32 col).value.toInt) := by
      rw [cellValue, hkind]
    have hk : constantValue T schema col (some text) = some (.number value.toInt) := by
      simp [constantValue, hs, hkind, hvalue]
    have hsql := sqlTest_const_cmp hs hop hv hk (sqlOrder_number T flip _ _)
    refine ⟨_, _, reads_int32CmpConst hs hop ht hsql, ?_⟩
    simp [ConstReadRight, hkind, Row.getInt32, compare_intCast]
  | @char cmpOp ch hkind hop hvalue =>
    have hv : cellValue row col s = some (.text s.typeOid [(row.char col).value]) := by
      rw [cellValue, hkind]
    have hk : constantValue T schema col (some text) = some (.text s.typeOid text) := by
      simp [constantValue, hs, hkind]
    have hsql := sqlTest_const_cmp hs hop hv hk (sqlOrder_text T flip _ _ _)
    refine ⟨_, _, reads_int32CmpConst hs hop ht hsql, ?_⟩
    have hint : (row.getInt32 col s.decodeKind).toInt = (row.char col).value.toNat := by
      rw [hkind]
      exact toInt_ofByte _
    rw [hint, toInt_ofByte, ← orient_compare, Except.ok.injEq]
    simp only [ConstReadRight, hkind]
    constructor
    · intro heq cmpOp' hop' a b ha hb
      obtain rfl := Option.some.inj (hop.symm.trans hop')
      cases flip with
      | false =>
        cases ha
        obtain rfl := Option.some.inj (hvalue.symm.trans hb)
        exact heq
      | true =>
        cases hb
        obtain rfl := Option.some.inj (hvalue.symm.trans ha)
        exact heq
    · intro hright
      cases flip with
      | false => exact hright cmpOp hop _ _ rfl hvalue
      | true => exact hright cmpOp hop _ _ hvalue rfl
  | @int8 cmpOp value hkind hop hvalue =>
    have hv : cellValue row col s = some (.number (row.int64 col).value.toInt) := by
      rw [cellValue, hkind]
    have hk : constantValue T schema col (some text) = some (.number value.toInt) := by
      simp [constantValue, hs, hkind, hvalue]
    have hsql := sqlTest_const_cmp hs hop hv hk (sqlOrder_number T flip _ _)
    refine ⟨_, _, reads_int64CmpConst hs (.inl hkind) hop ht hsql, ?_⟩
    simp [ConstReadRight, hkind, compare_intCast]
  | @numeric cmpOp value hkind hop hvalue =>
    obtain ⟨q, hq, hround⟩ := scaleNumericConstant_spec hvalue
    have hv : cellValue row col s = some (.number ((row.int64 col).value.toInt / 10 ^ inputScale s)) := by
      rw [cellValue, hkind]
    have hk : constantValue T schema col (some text) = some (.number q) := by
      simp [constantValue, hs, hkind, hq]
    have hsql := sqlTest_const_cmp hs hop hv hk (sqlOrder_number T flip _ _)
    refine ⟨_, _, reads_int64CmpConst hs (.inr hkind) hop ht hsql, ?_⟩
    rw [hround, Except.ok.injEq]
    simp only [ConstReadRight, hkind]
    constructor
    · intro heq cmpOp' q' hop' hq'
      obtain rfl := Option.some.inj (hop.symm.trans hop')
      obtain rfl := Option.some.inj (hq.symm.trans hq')
      exact heq
    · intro hright
      exact hright cmpOp q hop hq
  | @eq bytes hkind hname hvalue =>
    subst hname
    have hop : mapComparisonNameToQualOp .eq = some .eq := rfl
    have hv : cellValue row col s = some (.text s.typeOid (row.string col).value.val) := by
      rw [cellValue, hkind]
    have hk : constantValue T schema col (some text) = some (.text s.typeOid text) := by
      simp [constantValue, hs, hkind]
    have hsql := sqlTest_const_cmp hs hop hv hk (sqlOrder_text T flip _ _ _)
    refine ⟨_, _, reads_stringConst hs ht hsql, ?_⟩
    rw [Except.ok.injEq, Bool.eq_iff_iff]
    simp [ConstReadRight, hkind, hvalue, Evaluator.evalString, QualOp.holds]
  | @ne bytes hkind hname hvalue =>
    subst hname
    have hop : mapComparisonNameToQualOp .ne = some .ne := rfl
    have hv : cellValue row col s = some (.text s.typeOid (row.string col).value.val) := by
      rw [cellValue, hkind]
    have hk : constantValue T schema col (some text) = some (.text s.typeOid text) := by
      simp [constantValue, hs, hkind]
    have hsql := sqlTest_const_cmp hs hop hv hk (sqlOrder_text T flip _ _ _)
    refine ⟨_, _, reads_stringConst hs ht hsql, ?_⟩
    have hname : (CompareName.ne == .notLike) = false := rfl
    rw [Except.ok.injEq, hname, Bool.xor_false, Bool.eq_iff_iff]
    simp [ConstReadRight, hkind, hvalue, Evaluator.evalString, QualOp.holds, not_iff_not]
  | like hkind hname hvalue =>
    obtain ⟨op, bytes, rfl, -, hmatch⟩ := buildLikeTest_spec hvalue
    have hv : cellValue row col s = some (.text s.typeOid (row.string col).value.val) := by
      rw [cellValue, hkind]
    have hk : constantValue T schema col (some text) = some (.text s.typeOid text) := by
      simp [constantValue, hs, hkind]
    have hlike := sqlLike_text flip s.typeOid (row.string col).value.val text
    have hsql := @sqlTest_const T schema row s name col text flip _ _ hs hv hk
    rcases hname with rfl | rfl
    · rw [sqlAnswer, hlike] at hsql
      refine ⟨_, _, reads_stringConst hs ht hsql, ?_⟩
      have hname : (CompareName.like == .notLike) = false := rfl
      rw [hmatch, hname, Bool.xor_false]
      simp [ConstReadRight, hkind, eq_comm]
    · rw [sqlAnswer, hlike, Option.map_some] at hsql
      refine ⟨_, _, reads_stringConst hs ht hsql, ?_⟩
      rw [hmatch, BEq.rfl, Bool.xor_true]
      simp [ConstReadRight, hkind, eq_comm]

/-! ## A column against a column -/

/-- The tests of a column against a column. -/
inductive VarTest (targetScale : ColumnSchema → ColumnSchema → Nat) (sl sr : ColumnSchema)
    (name : CompareName) (left right : Nat) : FilterTest InputRequest → Prop
  | int32 {cmpOp : QualOp} (hkind : sr.decodeKind = sl.decodeKind)
      (hint : sl.decodeKind = .int32Date ∨ sl.decodeKind = .int32Int4 ∨ sl.decodeKind = .int32Char)
      (hop : mapComparisonNameToQualOp name = some cmpOp) :
      VarTest targetScale sl sr name left right (.int32CmpVar cmpOp (.own left) (.own right))
  | int64 {cmpOp : QualOp} (hkind : sr.decodeKind = sl.decodeKind)
      (hint : sl.decodeKind = .int64Int8 ∨ sl.decodeKind = .int64NumericScaled)
      (hop : mapComparisonNameToQualOp name = some cmpOp) :
      VarTest targetScale sl sr name left right (.int64CmpVar cmpOp (.own left) (.own right))
  | promoted {cmpOp : QualOp} (hkind : sl.decodeKind ≠ sr.decodeKind)
      (hl : isNumericFamily sl.decodeKind = true) (hr : isNumericFamily sr.decodeKind = true)
      (hop : mapComparisonNameToQualOp name = some cmpOp) :
      VarTest targetScale sl sr name left right
        (.int64CmpVar cmpOp (.promoted left (targetScale sl sr)) (.promoted right (targetScale sl sr)))

theorem buildVar_spec {targetScale : ColumnSchema → ColumnSchema → Nat} {schema : Schema}
    {name : CompareName} {left right : Nat} {t : FilterTest InputRequest}
    (h : buildVar targetScale schema name left right = some t) :
    ∃ sl sr, schema left = some sl ∧ schema right = some sr ∧
      VarTest targetScale sl sr name left right t := by
  obtain ⟨sl, hsl, h⟩ := Option.bind_eq_some_iff.1 h
  obtain ⟨sr, hsr, h⟩ := Option.bind_eq_some_iff.1 h
  obtain ⟨cmpOp, hop, h⟩ := Option.bind_eq_some_iff.1 h
  refine ⟨sl, sr, hsl, hsr, ?_⟩
  by_cases hkind : sl.decodeKind = sr.decodeKind
  · rw [if_neg (not_not.2 hkind)] at h
    cases hl : sl.decodeKind with
    | int32Date =>
      rw [hl] at h
      cases h
      exact .int32 hkind.symm (.inl hl) hop
    | int32Int4 =>
      rw [hl] at h
      cases h
      exact .int32 hkind.symm (.inr (.inl hl)) hop
    | int32Char =>
      rw [hl] at h
      cases h
      exact .int32 hkind.symm (.inr (.inr hl)) hop
    | int64Int8 =>
      rw [hl] at h
      cases h
      exact .int64 hkind.symm (.inl hl) hop
    | int64NumericScaled =>
      rw [hl] at h
      cases h
      exact .int64 hkind.symm (.inr hl) hop
    | stringRef =>
      rw [hl] at h
      cases h
    | doubleFloat8 =>
      rw [hl] at h
      cases h
  · rw [if_pos hkind] at h
    by_cases hfamily : (isNumericFamily sl.decodeKind && isNumericFamily sr.decodeKind) = true
    · rw [if_pos hfamily] at h
      cases h
      rw [Bool.and_eq_true] at hfamily
      exact .promoted hkind hfamily.1 hfamily.2 hop
    · rw [if_neg hfamily] at h
      cases h

/-- A comparison of two columns. -/
def varCompare (name : CompareName) (left right : Nat) : Compare := ⟨name, .column left, .column right⟩

/-- Bringing a scaled value to a larger scale. -/
theorem rescaleNumericForCompare_spec (v : Int64) {fromScale toScale : Nat} (h : fromScale ≤ toScale) :
    (RescaleFits v.toInt fromScale toScale ∧ ∃ w, rescaleNumericForCompare v fromScale toScale = some w ∧
      w.toInt = v.toInt * 10 ^ (toScale - fromScale)) ∨
    (¬ RescaleFits v.toInt fromScale toScale ∧ rescaleNumericForCompare v fromScale toScale = none) := by
  rw [rescaleNumericForCompare]
  by_cases heq : fromScale = toScale
  · subst heq
    refine .inl ⟨.inl rfl, v, if_pos rfl, ?_⟩
    rw [Nat.sub_self, pow_zero, mul_one]
  · rw [if_neg heq]
    by_cases hbig : 18 < toScale - fromScale
    · rw [if_pos (.inr hbig)]
      refine .inr ⟨?_, rfl⟩
      rintro (h' | ⟨h', -⟩)
      · exact heq h'
      · omega
    · rw [if_neg (by omega)]
      by_cases hfits : fitsInt64 (v.toInt * 10 ^ (toScale - fromScale)) = true
      · refine .inl ⟨.inr ⟨by omega, hfits⟩, _, if_pos hfits, ?_⟩
        simp only [fitsInt64, Bool.and_eq_true, decide_eq_true_eq] at hfits
        exact Int64.toInt_ofInt_of_le hfits.1 hfits.2
      · refine .inr ⟨?_, if_neg hfits⟩
        rintro (h' | ⟨-, h'⟩)
        · exact heq h'
        · exact hfits h'

/-- Scaled values compare as the values they stand for. -/
theorem compare_rescaled (v w : Int) {sv sw m : Nat} (hv : sv ≤ m) (hw : sw ≤ m) :
    compare (v * 10 ^ (m - sv)) (w * 10 ^ (m - sw)) =
      compare ((v : ℚ) / 10 ^ sv) ((w : ℚ) / 10 ^ sw) := by
  have hscale : ∀ (u : Int) (s : Nat), s ≤ m →
      ((u * 10 ^ (m - s) : Int) : ℚ) = (u : ℚ) / 10 ^ s * 10 ^ m := by
    intro u s hs
    have hten : (10 : ℚ) ^ s ≠ 0 := by positivity
    have hpow : (10 : ℚ) ^ m = 10 ^ s * 10 ^ (m - s) := by rw [← pow_add, Nat.add_sub_cancel' hs]
    rw [hpow]
    push_cast
    field_simp
  rw [← compare_intCast, hscale v sv hv, hscale w sw hw]
  exact compare_mul_right _ _ (by positivity)

theorem promoteInt64_toInt (v : Int) (scale : Nat) :
    (promoteInt64 v scale).toInt = (v * 10 ^ scale).bmod (2 ^ 64) := Int64.toInt_ofInt

theorem bmod_int64 (v : Int64) : v.toInt.bmod (2 ^ 64) = v.toInt :=
  Int.bmod_eq_of_le v.le_toInt v.toInt_lt

theorem bmod_int32 (v : Int32) : v.toInt.bmod (2 ^ 64) = v.toInt := by
  rw [← Int32.toInt_toInt64, bmod_int64]

section VarReads
variable {T : TypeSupport} {schema : Schema} {row : Row} {sl sr : ColumnSchema} {name : CompareName}
  {left right : Nat}

theorem nullOperand_var (hsl : schema left = some sl) (hsr : schema right = some sr) :
    nullOperand schema row (varCompare name left right) =
      (row.isNull left sl.decodeKind || row.isNull right sr.decodeKind) := by
  simp [varCompare, nullOperand, operandNull, hsl, hsr]

theorem sqlTest_var {cmpOp : QualOp} {vl vr : SqlValue} {o : Ordering} (hsl : schema left = some sl)
    (hsr : schema right = some sr) (hop : mapComparisonNameToQualOp name = some cmpOp)
    (hvl : cellValue row left sl = some vl) (hvr : cellValue row right sr = some vr)
    (ho : sqlOrder T vl vr = some o) :
    sqlTest T schema row (varCompare name left right) =
      if nullOperand schema row (varCompare name left right) then .unknown
      else .ofBool (cmpOp.holds o) := by
  have hl := columnValue_eq hsl hvl
  have hr := columnValue_eq hsr hvr
  have hanswer := sqlAnswer_cmp (T := T) hop vl vr
  rw [ho] at hanswer
  rw [nullOperand_var hsl hsr]
  cases hnl : row.isNull left sl.decodeKind <;> cases hnr : row.isNull right sr.decodeKind <;>
    rw [hnl] at hl <;> rw [hnr] at hr <;>
    simp [sqlTest, sqlOperands, varCompare, hl, hr, hanswer]

/-- A test of two inputs that may fail. -/
theorem reads_of_except {t : FilterTest InputRequest} {td : FilterTest FilterInputDesc}
    {c : Compare} {cmpOp : QualOp} {answer : Except FilterError Bool} {x : Bool}
    (hop : mapComparisonNameToQualOp c.name = some cmpOp)
    (ht : (scanLowering T schema).test c = some t) (htd : t.lookup (requestDesc schema) = some td)
    (heval : (filterEvaluator row).evalTest td = if nullOperand schema row c then .ok false else answer)
    (hsql : sqlTest T schema row c = if nullOperand schema row c then .unknown else .ofBool x) :
    Reads T schema row c answer x := by
  refine ⟨?_, hsql⟩
  rw [reading_of_test ht htd, heval, name_ne_notLike hop]
  simp only [Bool.xor_false]
  have hpure : ∀ r : Except FilterError Bool, (r >>= fun b => .ok b) = r := fun r => bind_pure r
  rw [hpure]

theorem reads_int32CmpVar {cmpOp : QualOp} {x : Bool} (hsl : schema left = some sl)
    (hsr : schema right = some sr) (hop : mapComparisonNameToQualOp name = some cmpOp)
    (ht : (scanLowering T schema).test (varCompare name left right) =
      some (.int32CmpVar cmpOp (.own left) (.own right)))
    (hsql : sqlTest T schema row (varCompare name left right) =
      if nullOperand schema row (varCompare name left right) then .unknown else .ofBool x) :
    Reads T schema row (varCompare name left right)
      (.ok (cmpOp.holds (compare (row.getInt32 left sl.decodeKind).toInt
        (row.getInt32 right sr.decodeKind).toInt))) x := by
  have htd : (FilterTest.int32CmpVar cmpOp (.own left) (.own right)).lookup (requestDesc schema) =
      some (.int32CmpVar cmpOp (ownDesc left sl) (ownDesc right sr)) := by
    rw [(FilterTest.lookup_two _ _ _).1, lookup_own hsl, lookup_own hsr]
    rfl
  refine reads_of_except hop ht htd ?_ hsql
  rw [nullOperand_var hsl hsr]
  show Except.ok (!(row.isNull left sl.decodeKind || row.isNull right sr.decodeKind) && _) = _
  cases row.isNull left sl.decodeKind || row.isNull right sr.decodeKind <;> rfl

/-- The answer of `INT64_CMP_VAR` on two scaled numerics. -/
def rescaledAnswer (value : FilterInputDesc → Int64) (cmpOp : QualOp) (dl dr : FilterInputDesc) :
    Except FilterError Bool :=
  match rescaleNumericForCompare (value dl) dl.numericScale (max dl.numericScale dr.numericScale),
    rescaleNumericForCompare (value dr) dr.numericScale (max dl.numericScale dr.numericScale) with
  | some l, some r => .ok (cmpOp.holds (compare l.toInt r.toInt))
  | _, _ => .error .rescaleFailed

theorem evalTest_numerics {E : Evaluator} (hE : E.rescales = true) {cmpOp : QualOp}
    {dl dr : FilterInputDesc} (hdl : dl.decodeKind = .int64NumericScaled)
    (hdr : dr.decodeKind = .int64NumericScaled) :
    E.evalTest (.int64CmpVar cmpOp dl dr) =
      if E.isNull dl || E.isNull dr then .ok false else rescaledAnswer E.int64 cmpOp dl dr := by
  have hboth : (E.rescales && dl.decodeKind == .int64NumericScaled &&
      dr.decodeKind == .int64NumericScaled) = true := by
    rw [hE, hdl, hdr]
    rfl
  rw [Evaluator.evalTest, if_pos hboth]
  rfl

theorem rescaledAnswer_eq_ok_iff {value : FilterInputDesc → Int64} {cmpOp : QualOp}
    {dl dr : FilterInputDesc} {x : Bool} :
    rescaledAnswer value cmpOp dl dr = .ok x ↔
      let m := max dl.numericScale dr.numericScale
      RescaleFits (value dl).toInt dl.numericScale m ∧
        RescaleFits (value dr).toInt dr.numericScale m ∧
        cmpOp.holds (compare ((value dl).toInt * 10 ^ (m - dl.numericScale))
          ((value dr).toInt * 10 ^ (m - dr.numericScale))) = x := by
  rw [rescaledAnswer]
  rcases rescaleNumericForCompare_spec (value dl)
    (le_max_left dl.numericScale dr.numericScale) with ⟨hl, l, hresl, hvl⟩ | ⟨hl, hresl⟩
  · rcases rescaleNumericForCompare_spec (value dr)
      (le_max_right dl.numericScale dr.numericScale) with ⟨hr, r, hresr, hvr⟩ | ⟨hr, hresr⟩
    · rw [hresl, hresr]
      simp only [Except.ok.injEq, hvl, hvr, hl, hr, true_and]
    · rw [hresl, hresr]
      simp [hr]
  · rw [hresl]
    simp [hl]

theorem rescaledAnswer_of_eq {value : FilterInputDesc → Int64} {cmpOp : QualOp}
    {dl dr : FilterInputDesc} (h : dl.numericScale = dr.numericScale) :
    rescaledAnswer value cmpOp dl dr =
      .ok (cmpOp.holds (compare (value dl).toInt (value dr).toInt)) := by
  have hself : ∀ (v : Int64) (scale : Nat), rescaleNumericForCompare v scale scale = some v :=
    fun v scale => if_pos rfl
  rw [rescaledAnswer, h, Nat.max_self, hself, hself]

end VarReads

theorem lookup_promoted {schema : Schema} {col targetScale : Nat} {s : ColumnSchema}
    (hs : schema col = some s) :
    requestDesc schema (.promoted col targetScale) = some (promotedDesc col s targetScale) := by
  rw [requestDesc, hs]
  rfl

theorem inputScale_of_ne {s : ColumnSchema} (h : s.decodeKind ≠ .int64NumericScaled) :
    inputScale s = 0 := by
  rw [inputScale, columnNumericScale, if_neg h]
  rfl

theorem columnNumericScale_of_ne {s : ColumnSchema} (h : s.decodeKind ≠ .int64NumericScaled) :
    columnNumericScale s = 0 := if_neg h

/-- The target scale of an integer beside another column is the scale of that column. -/
theorem scanTargetScale_eq {sl sr : ColumnSchema} :
    (sr.decodeKind ≠ .int64NumericScaled → scanTargetScale sl sr = inputScale sl) ∧
      (sl.decodeKind ≠ .int64NumericScaled → scanTargetScale sl sr = inputScale sr) := by
  constructor
  · intro h
    rw [scanTargetScale, inputScale, columnNumericScale_of_ne h]
    omega
  · intro h
    rw [scanTargetScale, inputScale, columnNumericScale_of_ne h]
    omega

section PromotedReads
variable {row : Row} {s : ColumnSchema} {col scale : Nat}

theorem populateInt64_numeric (h : s.decodeKind = .int64NumericScaled) :
    populateInt64 row (promotedDesc col s scale) = (row.int64 col).value := by
  simp [populateInt64, promotedDesc, h]

/-- The numeric family less the numerics. -/
theorem integer_kind (hfamily : isNumericFamily s.decodeKind = true)
    (h : s.decodeKind ≠ .int64NumericScaled) :
    s.decodeKind = .int32Int4 ∨ s.decodeKind = .int64Int8 := by
  cases hkind : s.decodeKind <;> simp_all [isNumericFamily]

/-- A promoted integer, in arithmetic that wraps. -/
theorem populateInt64_integer (hint : s.decodeKind = .int32Int4 ∨ s.decodeKind = .int64Int8) :
    (populateInt64 row (promotedDesc col s scale)).toInt =
      (integerValue row col s.decodeKind * 10 ^ scale).bmod (2 ^ 64) := by
  rw [← promoteInt64_toInt]
  rcases hint with hkind | hkind
  · simp [populateInt64, promotedDesc, hkind, integerValue, Row.getInt32]
  · simp [populateInt64, promotedDesc, hkind, integerValue]

theorem integerValue_bmod (kind : ColumnDecodeKind) :
    (integerValue row col kind).bmod (2 ^ 64) = integerValue row col kind := by
  unfold integerValue
  split
  · exact bmod_int32 _
  · exact bmod_int64 _

theorem promotedDesc_scale_numeric (h : s.decodeKind = .int64NumericScaled) :
    (promotedDesc col s scale).numericScale = inputScale s := if_pos h

theorem promotedDesc_scale_integer (h : s.decodeKind ≠ .int64NumericScaled) :
    (promotedDesc col s scale).numericScale = scale := if_neg h

theorem cellValue_integer (hint : s.decodeKind = .int32Int4 ∨ s.decodeKind = .int64Int8) :
    cellValue row col s = some (.number (integerValue row col s.decodeKind)) := by
  rcases hint with hkind | hkind
  · rw [cellValue, hkind]
    rfl
  · rw [cellValue, hkind]
    rfl

theorem cellValue_numeric (h : s.decodeKind = .int64NumericScaled) :
    cellValue row col s = some (.number ((row.int64 col).value.toInt / 10 ^ inputScale s)) := by
  rw [cellValue, h]

end PromotedReads

/-- **The readings of a column against a column**, and when they are right. -/
theorem VarTest.reads {T : TypeSupport} {schema : Schema} {sl sr : ColumnSchema}
    {name : CompareName} {left right : Nat} {t : FilterTest InputRequest}
    (h : VarTest scanTargetScale sl sr name left right t) (row : Row) (hsl : schema left = some sl)
    (hsr : schema right = some sr)
    (ht : (scanLowering T schema).test (varCompare name left right) = some t) :
    ∃ answer x, Reads T schema row (varCompare name left right) answer x ∧
      (answer = .ok x ↔ VarReadRight T sl sr row name left right) := by
  cases h with
  | @int32 cmpOp hkind hint hop =>
    rcases hint with hl | hl | hl
    · have hr := hkind.trans hl
      have hvl : cellValue row left sl = some (.date (row.int32 left).value.toInt) := by
        rw [cellValue, hl]
      have hvr : cellValue row right sr = some (.date (row.int32 right).value.toInt) := by
        rw [cellValue, hr]
      refine ⟨_, _, reads_int32CmpVar hsl hsr hop ht (sqlTest_var hsl hsr hop hvl hvr rfl), ?_⟩
      simp [VarReadRight, hl, hr, Row.getInt32]
    · have hr := hkind.trans hl
      have hvl : cellValue row left sl = some (.number (row.int32 left).value.toInt) := by
        rw [cellValue, hl]
      have hvr : cellValue row right sr = some (.number (row.int32 right).value.toInt) := by
        rw [cellValue, hr]
      refine ⟨_, _, reads_int32CmpVar hsl hsr hop ht (sqlTest_var hsl hsr hop hvl hvr rfl), ?_⟩
      simp [VarReadRight, hl, hr, Row.getInt32, compare_intCast]
    · have hr := hkind.trans hl
      have hvl : cellValue row left sl = some (.text sl.typeOid [(row.char left).value]) := by
        rw [cellValue, hl]
      have hvr : cellValue row right sr = some (.text sr.typeOid [(row.char right).value]) := by
        rw [cellValue, hr]
      refine ⟨_, _, reads_int32CmpVar hsl hsr hop ht (sqlTest_var hsl hsr hop hvl hvr rfl), ?_⟩
      have hil : (row.getInt32 left sl.decodeKind).toInt = (row.char left).value.toNat := by
        rw [hl]
        exact toInt_ofByte _
      have hir : (row.getInt32 right sr.decodeKind).toInt = (row.char right).value.toNat := by
        rw [hr]
        exact toInt_ofByte _
      rw [hil, hir, Except.ok.injEq]
      simp only [VarReadRight, hl, hr]
      constructor
      · intro heq cmpOp' hop' a b ha hb
        obtain rfl := Option.some.inj (hop.symm.trans hop')
        cases ha
        cases hb
        exact heq
      · intro hright
        exact hright cmpOp hop _ _ rfl rfl
  | @int64 cmpOp hkind hint hop =>
    have htd : (FilterTest.int64CmpVar cmpOp (.own left) (.own right)).lookup (requestDesc schema) =
        some (.int64CmpVar cmpOp (ownDesc left sl) (ownDesc right sr)) := by
      rw [(FilterTest.lookup_two _ _ _).2, lookup_own hsl, lookup_own hsr]
      rfl
    rcases hint with hl | hl
    · have hr := hkind.trans hl
      have hvl : cellValue row left sl = some (.number (row.int64 left).value.toInt) := by
        rw [cellValue, hl]
      have hvr : cellValue row right sr = some (.number (row.int64 right).value.toInt) := by
        rw [cellValue, hr]
      have heval : (filterEvaluator row).evalTest (.int64CmpVar cmpOp (ownDesc left sl)
          (ownDesc right sr)) = if nullOperand schema row (varCompare name left right) then .ok false
            else .ok (cmpOp.holds (compare (row.int64 left).value.toInt
              (row.int64 right).value.toInt)) := by
        rw [nullOperand_var hsl hsr, hl, hr, Evaluator.evalTest]
        simp [filterEvaluator, ownDesc, hl, hr, populateInt64]
      refine ⟨_, _, reads_of_except hop ht htd heval (sqlTest_var hsl hsr hop hvl hvr rfl), ?_⟩
      simp [VarReadRight, hl, hr, compare_intCast]
    · have hr := hkind.trans hl
      have hdl : promotedDesc left sl 0 = ownDesc left sl := promotedDesc_eq_ownDesc hl
      have hdr : promotedDesc right sr 0 = ownDesc right sr := promotedDesc_eq_ownDesc hr
      have hpl : populateInt64 row (ownDesc left sl) = (row.int64 left).value := by
        rw [← hdl, populateInt64_numeric hl]
      have hpr : populateInt64 row (ownDesc right sr) = (row.int64 right).value := by
        rw [← hdr, populateInt64_numeric hr]
      have heval : (filterEvaluator row).evalTest (.int64CmpVar cmpOp (ownDesc left sl)
          (ownDesc right sr)) = if (filterEvaluator row).isNull (ownDesc left sl) ||
            (filterEvaluator row).isNull (ownDesc right sr) then .ok false
          else rescaledAnswer (populateInt64 row) cmpOp (ownDesc left sl) (ownDesc right sr) :=
        evalTest_numerics rfl hl hr
      have hnull : ((filterEvaluator row).isNull (ownDesc left sl) ||
          (filterEvaluator row).isNull (ownDesc right sr)) =
            nullOperand schema row (varCompare name left right) := (nullOperand_var hsl hsr).symm
      rw [hnull] at heval
      refine ⟨_, _, reads_of_except hop ht htd heval (sqlTest_var hsl hsr hop
        (cellValue_numeric hl) (cellValue_numeric hr) rfl), ?_⟩
      rw [rescaledAnswer_eq_ok_iff]
      simp only [VarReadRight, hl, hr, hpl, hpr]
      constructor
      · rintro ⟨hfl, hfr, -⟩
        exact ⟨hfl, hfr⟩
      · rintro ⟨hfl, hfr⟩
        refine ⟨hfl, hfr, ?_⟩
        exact congrArg cmpOp.holds (compare_rescaled _ _ (le_max_left (inputScale sl) (inputScale sr))
          (le_max_right (inputScale sl) (inputScale sr)))
  | @promoted cmpOp hkind hl hr hop =>
    have htd : (FilterTest.int64CmpVar cmpOp (.promoted left (scanTargetScale sl sr))
        (.promoted right (scanTargetScale sl sr))).lookup (requestDesc schema) =
        some (.int64CmpVar cmpOp (promotedDesc left sl (scanTargetScale sl sr))
          (promotedDesc right sr (scanTargetScale sl sr))) := by
      rw [(FilterTest.lookup_two _ _ _).2, lookup_promoted hsl, lookup_promoted hsr]
      rfl
    have heval : (filterEvaluator row).evalTest
        (.int64CmpVar cmpOp (promotedDesc left sl (scanTargetScale sl sr))
          (promotedDesc right sr (scanTargetScale sl sr))) =
        if (filterEvaluator row).isNull (promotedDesc left sl (scanTargetScale sl sr)) ||
          (filterEvaluator row).isNull (promotedDesc right sr (scanTargetScale sl sr)) then .ok false
        else rescaledAnswer (populateInt64 row) cmpOp (promotedDesc left sl (scanTargetScale sl sr))
          (promotedDesc right sr (scanTargetScale sl sr)) :=
      evalTest_numerics rfl rfl rfl
    have hnull : ((filterEvaluator row).isNull (promotedDesc left sl (scanTargetScale sl sr)) ||
        (filterEvaluator row).isNull (promotedDesc right sr (scanTargetScale sl sr))) =
          nullOperand schema row (varCompare name left right) := (nullOperand_var hsl hsr).symm
    rw [hnull] at heval
    obtain ⟨hscalel, hscaler⟩ := @scanTargetScale_eq sl sr
    by_cases hln : sl.decodeKind = .int64NumericScaled
    · have hrn : sr.decodeKind ≠ .int64NumericScaled := fun h => hkind (hln.trans h.symm)
      have hrint := integer_kind hr hrn
      have hsame : (promotedDesc left sl (scanTargetScale sl sr)).numericScale =
          (promotedDesc right sr (scanTargetScale sl sr)).numericScale := by
        rw [promotedDesc_scale_numeric hln, promotedDesc_scale_integer hrn, hscalel hrn]
      refine ⟨_, _, reads_of_except hop ht htd heval (sqlTest_var hsl hsr hop
        (cellValue_numeric hln) (cellValue_integer hrint) rfl), ?_⟩
      rw [rescaledAnswer_of_eq hsame, populateInt64_numeric hln, populateInt64_integer hrint,
        hscalel hrn, Except.ok.injEq]
      have hright : VarReadRight T sl sr row name left right ↔
          cmpOp.holds (compare (row.int64 left).value.toInt
            ((integerValue row right sr.decodeKind * 10 ^ inputScale sl).bmod (2 ^ 64))) =
          cmpOp.holds (compare (((row.int64 left).value.toInt : ℚ) / 10 ^ inputScale sl)
            (integerValue row right sr.decodeKind)) := by
        rcases hrint with h | h <;> simp [VarReadRight, hln, h, hop]
      exact hright.symm
    · have hlint := integer_kind hl hln
      by_cases hrn : sr.decodeKind = .int64NumericScaled
      · have hsame : (promotedDesc left sl (scanTargetScale sl sr)).numericScale =
            (promotedDesc right sr (scanTargetScale sl sr)).numericScale := by
          rw [promotedDesc_scale_numeric hrn, promotedDesc_scale_integer hln, hscaler hln]
        refine ⟨_, _, reads_of_except hop ht htd heval (sqlTest_var hsl hsr hop
          (cellValue_integer hlint) (cellValue_numeric hrn) rfl), ?_⟩
        rw [rescaledAnswer_of_eq hsame, populateInt64_numeric hrn, populateInt64_integer hlint,
          hscaler hln, Except.ok.injEq]
        have hright : VarReadRight T sl sr row name left right ↔
            cmpOp.holds (compare ((integerValue row left sl.decodeKind * 10 ^ inputScale sr).bmod
              (2 ^ 64)) (row.int64 right).value.toInt) =
            cmpOp.holds (compare ((integerValue row left sl.decodeKind : Int) : ℚ)
              (((row.int64 right).value.toInt : ℚ) / 10 ^ inputScale sr)) := by
          rcases hlint with h | h <;> simp [VarReadRight, hrn, h, hop]
        exact hright.symm
      · have hrint := integer_kind hr hrn
        have hsame : (promotedDesc left sl (scanTargetScale sl sr)).numericScale =
            (promotedDesc right sr (scanTargetScale sl sr)).numericScale := by
          rw [promotedDesc_scale_integer hln, promotedDesc_scale_integer hrn]
        have hzero : scanTargetScale sl sr = 0 := (hscalel hrn).trans (inputScale_of_ne hln)
        refine ⟨_, _, reads_of_except hop ht htd heval (sqlTest_var hsl hsr hop
          (cellValue_integer hlint) (cellValue_integer hrint) rfl), ?_⟩
        rw [rescaledAnswer_of_eq hsame, populateInt64_integer hlint, populateInt64_integer hrint,
          hzero, pow_zero, mul_one, mul_one, integerValue_bmod, integerValue_bmod, compare_intCast]
        rcases hlint with hkl | hkl <;> rcases hrint with hkr | hkr <;>
          simp [VarReadRight, hkl, hkr]

/-! ## The filter selects what SQL selects -/

section Selects
variable {T : TypeSupport} {schema : Schema} {row : Row}

theorem readsAs_iff_of_const {name : CompareName} {col : Nat} {text : Bytes} {flip : Bool}
    {s : ColumnSchema} {t : FilterTest InputRequest} (hs : schema col = some s)
    (hconst : ConstTest T s name col text t)
    (ht : (scanLowering T schema).test (constCompare flip name col text) =
      some (orientTest flip name t)) (pos : Bool) :
    ReadsAs ((scanLowering T schema).reading schema (filterEvaluator row)) (sqlTest T schema row)
      pos (constCompare flip name col text) ↔
        ReadRight T schema row pos (constCompare flip name col text) := by
  obtain ⟨answer, x, hreads, hright⟩ := hconst.reads row hs ht
  rw [hreads.readsAs_iff pos, hright, ReadRight]
  cases hnull : nullOperand schema row (constCompare flip name col text) with
  | true => rfl
  | false =>
    rw [if_neg Bool.false_ne_true, if_neg Bool.false_ne_true, constCompare_name]
    cases flip with
    | false =>
      show _ ↔ ∀ s' text', schema col = some s' → some text = some text' →
        ConstReadRight T s' row name col text' false
      constructor
      · rintro h s' text' hs' htext
        cases hs.symm.trans hs'
        cases htext
        exact h
      · intro h
        exact h s text hs rfl
    | true =>
      show _ ↔ ∀ s' text', schema col = some s' → some text = some text' →
        ConstReadRight T s' row name col text' true
      constructor
      · rintro h s' text' hs' htext
        cases hs.symm.trans hs'
        cases htext
        exact h
      · intro h
        exact h s text hs rfl

/-- **The reading of a lowered comparison is what SQL asks if and only if it is right.** -/
theorem readsAs_iff_readRight {c : Compare} (hc : ((scanLowering T schema).test c).isSome)
    (pos : Bool) :
    ReadsAs ((scanLowering T schema).reading schema (filterEvaluator row)) (sqlTest T schema row)
      pos c ↔ ReadRight T schema row pos c := by
  obtain ⟨t, ht⟩ := Option.isSome_iff_exists.1 hc
  obtain ⟨name, l, r⟩ := c
  cases l with
  | column left =>
    cases r with
    | column right =>
      obtain ⟨sl, sr, hsl, hsr, hvar⟩ := buildVar_spec ht
      obtain ⟨answer, x, hreads, hright⟩ := hvar.reads row hsl hsr ht
      have hiff := hreads.readsAs_iff pos
      rw [hright] at hiff
      refine hiff.trans ?_
      rw [ReadRight]
      show _ ↔ if nullOperand schema row (varCompare name left right) then _ else
        ∀ sl' sr', schema left = some sl' → schema right = some sr' →
          VarReadRight T sl' sr' row name left right
      cases hnull : nullOperand schema row (varCompare name left right) with
      | true => rfl
      | false =>
        rw [if_neg Bool.false_ne_true, if_neg Bool.false_ne_true]
        constructor
        · intro h sl' sr' hsl' hsr'
          cases hsl.symm.trans hsl'
          cases hsr.symm.trans hsr'
          exact h
        · intro h
          exact h sl sr hsl hsr
    | constant value =>
      obtain ⟨s, text, hs, rfl, hconst⟩ := buildConst_spec ht
      exact @readsAs_iff_of_const T schema row name left text false s t hs hconst ht pos
  | constant value =>
    cases r with
    | column right =>
      obtain ⟨t', ht', rfl⟩ := Option.map_eq_some_iff.1 ht
      obtain ⟨s, text, hs, rfl, hconst⟩ := buildConst_spec ht'
      exact @readsAs_iff_of_const T schema row name right text true s t' hs hconst ht pos
    | constant value' => cases ht

end Selects

/-! ## A single comparison is lowered -/

theorem scanInput_isSome {schema : Schema} {request : InputRequest} {d : FilterInputDesc}
    {inputs : List FilterInputDesc} (hd : requestDesc schema request = some d)
    (hlen : inputs.length < filterMaxInputs) :
    ∃ i inputs', scanInput schema request inputs = some (i, inputs') ∧
      inputs'.length ≤ inputs.length + 1 := by
  cases request with
  | own col =>
    obtain ⟨s, hs, -⟩ := Option.bind_eq_some_iff.1 hd
    rw [scanInput, hs]
    show ∃ i inputs', lookupOrAddScanFilterInput col s inputs = some (i, inputs') ∧ _
    rw [lookupOrAddScanFilterInput]
    split
    · next i _ => exact ⟨i, inputs, rfl, Nat.le_succ _⟩
    · rw [if_neg (not_le.2 hlen)]
      exact ⟨_, _, rfl, by rw [List.length_append, List.length_singleton]⟩
  | promoted col targetScale =>
    obtain ⟨s, hs, -⟩ := Option.bind_eq_some_iff.1 hd
    rw [scanInput, hs]
    show ∃ i inputs', lookupOrAddScanFilterInputAs col s targetScale inputs = some (i, inputs') ∧ _
    rw [lookupOrAddScanFilterInputAs, if_neg (not_le.2 hlen)]
    split
    · next i _ => exact ⟨i, inputs, rfl, Nat.le_succ _⟩
    · exact ⟨_, _, rfl, by rw [List.length_append, List.length_singleton]⟩

theorem register_isSome {schema : Schema}
    {input : InputRequest → List FilterInputDesc → Option (Nat × List FilterInputDesc)}
    (hinput : ∀ {request : InputRequest} {d : FilterInputDesc} {inputs : List FilterInputDesc},
      requestDesc schema request = some d → inputs.length < filterMaxInputs →
        ∃ i inputs', input request inputs = some (i, inputs') ∧ inputs'.length ≤ inputs.length + 1)
    {t : FilterTest InputRequest} {td : FilterTest FilterInputDesc}
    (h : t.lookup (requestDesc schema) = some td) {inputs : List FilterInputDesc}
    (hlen : inputs.length + 1 < filterMaxInputs) : (t.register input inputs).isSome := by
  have hone : ∀ request, (requestDesc schema request).isSome → ∃ i inputs',
      input request inputs = some (i, inputs') ∧ inputs'.length ≤ inputs.length + 1 := by
    intro request hr
    obtain ⟨d, hd⟩ := Option.isSome_iff_exists.1 hr
    exact hinput hd (Nat.lt_of_succ_lt hlen)
  have htwo : ∀ l r, (requestDesc schema l).isSome → (requestDesc schema r).isSome →
      ∃ i inputs₁ j inputs₂, input l inputs = some (i, inputs₁) ∧
        input r inputs₁ = some (j, inputs₂) := by
    intro l r hl hr
    obtain ⟨i, inputs₁, hi, hlen₁⟩ := hone l hl
    obtain ⟨d, hd⟩ := Option.isSome_iff_exists.1 hr
    obtain ⟨j, inputs₂, hj, -⟩ := hinput hd (lt_of_le_of_lt hlen₁ hlen)
    exact ⟨i, inputs₁, j, inputs₂, hi, hj⟩
  cases t with
  | int32CmpConst cmpOp left value =>
    obtain ⟨d, hd, -⟩ := Option.bind_eq_some_iff.1 h
    obtain ⟨i, inputs₁, hi, -⟩ := hone left (Option.isSome_of_eq_some hd)
    simp [FilterTest.register, hi]
  | int64CmpConst cmpOp left value =>
    obtain ⟨d, hd, -⟩ := Option.bind_eq_some_iff.1 h
    obtain ⟨i, inputs₁, hi, -⟩ := hone left (Option.isSome_of_eq_some hd)
    simp [FilterTest.register, hi]
  | stringConst op left bytes =>
    obtain ⟨d, hd, -⟩ := Option.bind_eq_some_iff.1 h
    obtain ⟨i, inputs₁, hi, -⟩ := hone left (Option.isSome_of_eq_some hd)
    simp [FilterTest.register, hi]
  | int32CmpVar cmpOp left right =>
    obtain ⟨dl, hdl, h⟩ := Option.bind_eq_some_iff.1 h
    obtain ⟨dr, hdr, -⟩ := Option.bind_eq_some_iff.1 h
    obtain ⟨i, inputs₁, j, inputs₂, hi, hj⟩ :=
      htwo left right (Option.isSome_of_eq_some hdl) (Option.isSome_of_eq_some hdr)
    simp [FilterTest.register, hi, hj]
  | int64CmpVar cmpOp left right =>
    obtain ⟨dl, hdl, h⟩ := Option.bind_eq_some_iff.1 h
    obtain ⟨dr, hdr, -⟩ := Option.bind_eq_some_iff.1 h
    obtain ⟨i, inputs₁, j, inputs₂, hi, hj⟩ :=
      htwo left right (Option.isSome_of_eq_some hdl) (Option.isSome_of_eq_some hdr)
    simp [FilterTest.register, hi, hj]

theorem buildConst_lookup {T : TypeSupport} {schema : Schema} {name : CompareName} {col : Nat}
    {value : Option Bytes} {t : FilterTest InputRequest} (flip : Bool)
    (h : buildConst T schema name col value = some t) :
    ∃ td, (orientTest flip name t).lookup (requestDesc schema) = some td := by
  obtain ⟨s, text, hs, -, hconst⟩ := buildConst_spec h
  have hown := lookup_own hs
  cases hconst with
  | like hkind hname hvalue =>
    obtain ⟨op, bytes, rfl, -, -⟩ := buildLikeTest_spec hvalue
    rw [orientTest_stringConst]
    simp [FilterTest.lookup, hown]
  | date | int4 | char => rw [orientTest_int32CmpConst]; simp [FilterTest.lookup, hown]
  | int8 | numeric => rw [orientTest_int64CmpConst]; simp [FilterTest.lookup, hown]
  | eq | ne => rw [orientTest_stringConst]; simp [FilterTest.lookup, hown]

theorem compareTest_lookup {T : TypeSupport} {targetScale : ColumnSchema → ColumnSchema → Nat}
    {schema : Schema} {c : Compare} {t : FilterTest InputRequest}
    (h : compareTest T targetScale schema c = some t) :
    ∃ td, t.lookup (requestDesc schema) = some td := by
  obtain ⟨name, l, r⟩ := c
  cases l with
  | column left =>
    cases r with
    | column right =>
      obtain ⟨sl, sr, hsl, hsr, hvar⟩ := buildVar_spec h
      cases hvar with
      | int32 => simp [FilterTest.lookup, lookup_own hsl, lookup_own hsr]
      | int64 => simp [FilterTest.lookup, lookup_own hsl, lookup_own hsr]
      | promoted => simp [FilterTest.lookup, lookup_promoted hsl, lookup_promoted hsr]
    | constant value => exact buildConst_lookup false h
  | constant value =>
    cases r with
    | column right =>
      obtain ⟨t', ht', rfl⟩ := Option.map_eq_some_iff.1 h
      exact buildConst_lookup true ht'
    | constant value' => cases h

/-- A comparison whose test finds its inputs is lowered by itself. -/
theorem Lowering.compare_isSome {L : Lowering} {c : Compare} {t : FilterTest InputRequest}
    (ht : L.test c = some t) (hreg : (L.register t []).isSome) :
    ∃ out s, L.compare c ⟨[], [], 0⟩ = some (out, s) := by
  obtain ⟨⟨t', inputs⟩, hreg⟩ := Option.isSome_iff_exists.1 hreg
  rw [Lowering.compare, ht]
  show ∃ out s, (L.register t [] >>= _) = some (out, s)
  rw [hreg]
  show ∃ out s, LowerState.finishStep ⟨inputs, [], 0⟩ (c.name == .notLike) (.test t') = some (out, s)
  rw [LowerState.finishStep]
  cases c.name == .notLike with
  | true => exact ⟨_, _, rfl⟩
  | false => exact ⟨_, _, rfl⟩

theorem Lowering.filters_single {L : Lowering} {c : Compare} {t : FilterTest InputRequest}
    (ht : L.test c = some t) (hreg : (L.register t []).isSome) :
    (L.filters [.compare c]).isSome ∧ (L.filters [.not (.compare c)]).isSome := by
  obtain ⟨out, s, hcompare⟩ := Lowering.compare_isSome ht hreg
  have hexpr : L.boolExpr (.compare c) ⟨[], [], 0⟩ = some (out, s) := by
    rw [Lowering.boolExpr]
    exact hcompare
  constructor
  · simp [Lowering.filters, Lowering.filtersFrom, hexpr, appendFilterExpr]
  · simp [Lowering.filters, Lowering.filtersFrom, Lowering.boolExpr, hcompare, appendFilterExpr]

theorem lower_compare_isSome {T : TypeSupport} {schema : Schema} {c : Compare}
    (hc : (compareTest T scanTargetScale schema c).isSome) :
    (lowerScanFilters T schema [.compare c]).isSome ∧
      (lowerScanFilters T schema [.not (.compare c)]).isSome := by
  obtain ⟨t, ht⟩ := Option.isSome_iff_exists.1 hc
  obtain ⟨td, htd⟩ := compareTest_lookup ht
  have htest : (scanLowering T schema).test c = some t := ht
  exact Lowering.filters_single htest (register_isSome scanInput_isSome htd (by decide))

/-! ## The filter selects what SQL selects -/

/-- **The filter's contract on a row**: the lowered program selects the row if and only if
the SQL value of the predicate is TRUE. -/
def SelectsAsSql (T : TypeSupport) (schema : Schema) (row : Row) (filters : List Expr) : Prop :=
  ∀ prog, lowerScanFilters T schema filters = some prog →
    (filterEvaluator row).execute prog = .ok (sqlWhere (sqlTest T schema row) filters).isTrue

section Main
variable {T : TypeSupport} {schema : Schema} {row : Row}

mutual

/-- What holds of every lowered comparison at its place holds in a lowered predicate. -/
theorem Lowering.boolExpr_tests {L : Lowering} {P Q : Bool → Compare → Prop}
    (hPQ : ∀ pos c, P pos c → (L.test c).isSome → Q pos c) : ∀ (e : Expr) {s s' : LowerState}
      {out : Nat} (pos : Bool), L.boolExpr e s = some (out, s') → e.TestsIn P pos → e.TestsIn Q pos
  | .compare c, s, s', out, pos, h, htests => by
    rw [Lowering.boolExpr] at h
    obtain ⟨t, ht, -⟩ := Option.bind_eq_some_iff.1 h
    rw [Expr.TestsIn] at htests ⊢
    exact hPQ pos c htests (Option.isSome_of_eq_some ht)
  | .not child, s, s', out, pos, h, htests => by
    rw [Lowering.boolExpr] at h
    rw [Expr.TestsIn] at htests ⊢
    split at h
    · cases h
    · obtain ⟨⟨out₁, s₁⟩, hchild, -⟩ := Option.bind_eq_some_iff.1 h
      exact Lowering.boolExpr_tests hPQ child (!pos) hchild htests
  | .bool _ [], s, s', out, pos, h, _ => by
    rw [Lowering.boolExpr] at h
    cases h
  | .bool type (child :: children), s, s', out, pos, h, htests => by
    rw [Lowering.boolExpr] at h
    rw [Expr.TestsIn, childrenTestsIn] at htests ⊢
    obtain ⟨⟨left, s₁⟩, hchild, h⟩ := Option.bind_eq_some_iff.1 h
    exact ⟨Lowering.boolExpr_tests hPQ child pos hchild htests.1,
      Lowering.boolChildren_tests hPQ children type pos h htests.2⟩

theorem Lowering.boolChildren_tests {L : Lowering} {P Q : Bool → Compare → Prop}
    (hPQ : ∀ pos c, P pos c → (L.test c).isSome → Q pos c) :
    ∀ (children : List Expr) (type : BoolExprType) {left out : Nat} {s s' : LowerState}
      (pos : Bool), L.boolChildren type children left s = some (out, s') →
      childrenTestsIn P pos children → childrenTestsIn Q pos children
  | [], _, _, _, _, _, _, _, _ => by rw [childrenTestsIn]; trivial
  | child :: children, type, left, out, s, s', pos, h, htests => by
    rw [Lowering.boolChildren] at h
    rw [childrenTestsIn] at htests ⊢
    split at h
    · cases h
    · obtain ⟨⟨right, s₁⟩, hchild, h⟩ := Option.bind_eq_some_iff.1 h
      exact ⟨Lowering.boolExpr_tests hPQ child pos hchild htests.1,
        Lowering.boolChildren_tests hPQ children type pos h htests.2⟩

end

theorem Lowering.filtersFrom_tests {L : Lowering} {P Q : Bool → Compare → Prop}
    (hPQ : ∀ pos c, P pos c → (L.test c).isSome → Q pos c) {filters : List Expr} {s : LowerState}
    {exprs : List FilterExprDesc} {prog : Program} (h : L.filtersFrom filters s exprs = some prog)
    (htests : ∀ filter ∈ filters, filter.TestsIn P true) :
    ∀ filter ∈ filters, filter.TestsIn Q true := by
  induction filters generalizing s exprs with
  | nil =>
    intro filter hmem
    cases hmem
  | cons filter filters ih =>
    obtain ⟨⟨out, s'⟩, hexpr, h⟩ := Option.bind_eq_some_iff.1 h
    obtain ⟨exprs', -, h⟩ := Option.bind_eq_some_iff.1 h
    intro f hmem
    rcases List.mem_cons.1 hmem with rfl | hmem
    · exact Lowering.boolExpr_tests hPQ f true hexpr (htests f List.mem_cons_self)
    · exact ih h (fun g hg => htests g (List.mem_cons_of_mem filter hg)) f hmem

/-- The reading of a comparison by itself and of its negation. -/
theorem twoValuedFilters_single (reading : Compare → Except FilterError Bool) (c : Compare) :
    twoValuedFilters reading [.compare c] = reading c ∧
      twoValuedFilters reading [.not (.compare c)] = reading c >>= fun b => .ok (!b) := by
  constructor
  · rw [twoValuedFilters, Expr.twoValued]
    cases reading c with
    | error e => rfl
    | ok b => cases b <;> rfl
  · rw [twoValuedFilters, Expr.twoValued, Expr.twoValued]
    cases reading c with
    | error e => rfl
    | ok b => cases b <;> rfl

theorem selectsAsSql_iff {filters : List Expr} (hlow : (lowerScanFilters T schema filters).isSome)
    (hfits : filterRegisters filters ≤ filterMaxBoolRegs) :
    SelectsAsSql T schema row filters ↔
      twoValuedFilters ((scanLowering T schema).reading schema (filterEvaluator row)) filters =
        .ok (sqlWhere (sqlTest T schema row) filters).isTrue := by
  obtain ⟨prog, hprog⟩ := Option.isSome_iff_exists.1 hlow
  have hrun := Lowering.execute_eq (scanLowering_sound T schema) (filterEvaluator row) hprog
  rw [if_pos hfits] at hrun
  constructor
  · intro h
    rw [← hrun]
    exact h prog hprog
  · intro h prog' hprog'
    cases hprog.symm.trans hprog'
    rw [hrun]
    exact h

/-- **The standalone filter selects the rows on which the predicate is TRUE, exactly for
the tests it reads right.** Take the comparisons that may stand under an even number of
negations and those that may stand under an odd one. Every predicate of these
comparisons that is lowered is evaluated as SQL says if it needs no more registers than
there are, and only then, if and only if each of the comparisons is read right on the
row. -/
theorem selectsAsSql_iff_readRight (T : TypeSupport) (schema : Schema) (row : Row)
    (P : Bool → Compare → Prop) :
    (∀ filters, (∀ filter ∈ filters, filter.TestsIn P true) →
      (lowerScanFilters T schema filters).isSome →
        (SelectsAsSql T schema row filters ↔ filterRegisters filters ≤ filterMaxBoolRegs)) ↔
    ∀ pos c, P pos c → (compareTest T scanTargetScale schema c).isSome →
      ReadRight T schema row pos c := by
  constructor
  · intro h pos c hP hc
    obtain ⟨hpos, hneg⟩ := lower_compare_isSome hc
    refine (readsAs_iff_readRight hc pos).1 ?_
    obtain ⟨hsingle, hsingleNot⟩ :=
      twoValuedFilters_single ((scanLowering T schema).reading schema (filterEvaluator row)) c
    cases pos with
    | true =>
      have htests : ∀ filter ∈ [Expr.compare c], filter.TestsIn P true := by
        intro filter hmem
        rw [List.mem_singleton.1 hmem, Expr.TestsIn]
        exact hP
      have hfits : filterRegisters [.compare c] ≤ filterMaxBoolRegs := by
        simp only [filterRegisters, List.map_cons, List.map_nil, List.sum_cons, List.sum_nil,
          Expr.registers]
        split <;> decide
      have hsel := (selectsAsSql_iff hpos hfits).1 ((h _ htests hpos).2 hfits)
      rw [hsingle] at hsel
      rw [ReadsAs, hsel, Truth.holds_true]
      show Except.ok (Truth.and (sqlTest T schema row c) .true).isTrue = _
      cases sqlTest T schema row c <;> rfl
    | false =>
      have htests : ∀ filter ∈ [Expr.not (.compare c)], filter.TestsIn P true := by
        intro filter hmem
        rw [List.mem_singleton.1 hmem, Expr.TestsIn, Expr.TestsIn]
        exact hP
      have hfits : filterRegisters [.not (.compare c)] ≤ filterMaxBoolRegs := by
        simp only [filterRegisters, List.map_cons, List.map_nil, List.sum_cons, List.sum_nil,
          Expr.registers]
        split <;> decide
      have hsel := (selectsAsSql_iff hneg hfits).1 ((h _ htests hneg).2 hfits)
      rw [hsingleNot] at hsel
      rw [ReadsAs]
      have hvalue : (sqlWhere (sqlTest T schema row) [.not (.compare c)]).isTrue =
          !(sqlTest T schema row c).holds false := by
        show (Truth.and (sqlTest T schema row c).not .true).isTrue = _
        cases sqlTest T schema row c <;> rfl
      rw [hvalue] at hsel
      cases hread : (scanLowering T schema).reading schema (filterEvaluator row) c with
      | error e =>
        rw [hread] at hsel
        cases hsel
      | ok b =>
        rw [hread] at hsel
        have hb : (!b) = !(sqlTest T schema row c).holds false := Except.ok.inj hsel
        rw [Bool.not_inj hb]
  · intro h filters htests hlow
    have hreads : ∀ pos c, P pos c → ((scanLowering T schema).test c).isSome →
        ReadsAs ((scanLowering T schema).reading schema (filterEvaluator row))
          (sqlTest T schema row) pos c :=
      fun pos c hP hc => (readsAs_iff_readRight hc pos).2 (h pos c hP hc)
    obtain ⟨prog, hprog⟩ := Option.isSome_iff_exists.1 hlow
    have hall := Lowering.filtersFrom_tests hreads hprog htests
    by_cases hfits : filterRegisters filters ≤ filterMaxBoolRegs
    · refine ⟨fun _ => hfits, fun _ => (selectsAsSql_iff hlow hfits).2 ?_⟩
      exact twoValuedFilters_eq _ _ hall
    · refine ⟨fun hsel => ?_, fun hf => absurd hf hfits⟩
      have hrun := Lowering.execute_eq (scanLowering_sound T schema) (filterEvaluator row) hprog
      rw [if_neg hfits] at hrun
      cases hrun.symm.trans (hsel prog hprog)

end Main

/-! ## A NULL under NOT -/

/-- The value of a decimal literal. -/
def decimalIn (text : Bytes) : Option Nat :=
  if text ≠ [] ∧ text.all (fun c => 48 ≤ c && c ≤ 57) then
    some (text.foldl (fun v c => 10 * v + (c.toNat - 48)) 0)
  else none

/-- Type support for unsigned decimal literals and texts of the C collation. -/
def decimalSupport : TypeSupport where
  int4In text := (decimalIn text).bind fun v => if v < 2 ^ 31 then some (Int32.ofNat v) else none
  int8In text := (decimalIn text).bind fun v => if v < 2 ^ 63 then some (Int64.ofNat v) else none
  dateIn _ := none
  numericIn text := (decimalIn text).map fun v => v
  stringIn _ _ text := some text
  stringCmp _ a b := if a < b then .lt else if a = b then .eq else .gt

/-- One `int4` column. -/
def int4Schema : Schema := fun col => if col = 1 then some ⟨23, -1, .int32Int4, .left⟩ else none

/-- A row whose columns are all NULL. -/
def nullRow : Row where
  char _ := ⟨0, true⟩
  int32 _ := ⟨0, true⟩
  int64 _ := ⟨0, true⟩
  string _ := ⟨⟨[], by decide⟩, true⟩

/-- `NOT (a = 1)`. -/
def notEqualsOne : Expr := .not (.compare ⟨.eq, .column 1, .constant (some [49])⟩)

/-- `NOT (a = 1)` selects the rows on which `a` is NULL. -/
theorem not_selectsAsSql :
    ¬ ∀ (T : TypeSupport) (schema : Schema) (row : Row) (filters : List Expr),
      SelectsAsSql T schema row filters := by
  intro h
  have hlow : lowerScanFilters decimalSupport int4Schema [notEqualsOne] =
      some ⟨[⟨1, .int32Int4, .int32Int4, 0⟩], [⟨0, 2, 1⟩],
        [⟨.test (.int32CmpConst .eq 0 1), 0⟩, ⟨.boolNot 0, 1⟩]⟩ := by decide
  have hsel := h decimalSupport int4Schema nullRow [notEqualsOne] _ hlow
  have hrun : (filterEvaluator nullRow).execute ⟨[⟨1, .int32Int4, .int32Int4, 0⟩], [⟨0, 2, 1⟩],
      [⟨.test (.int32CmpConst .eq 0 1), 0⟩, ⟨.boolNot 0, 1⟩]⟩ = .ok true := rfl
  have hsql : (sqlWhere (sqlTest decimalSupport int4Schema nullRow) [notEqualsOne]).isTrue =
      false := rfl
  rw [hrun, hsql] at hsel
  cases hsel

end FilterProgram
end PgYaap
