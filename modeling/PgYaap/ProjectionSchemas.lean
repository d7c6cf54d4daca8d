import PgYaap.ProjectionArithmetic
import PgYaap.TermMeanings

/-! # The schema of a projected column

The type and the scale of an item of a select list are inferred by a recursion over the expression,
beside the one that lowers it. The parents of the projection get the type that has been inferred with
the scale that the lowering has found: the type decides in which array they look for the value, and
whether the scale is kept at all, which it is for numerics only. -/
namespace PgYaap
namespace ProjectionSchemas

open FilterProgram (ColumnDecodeKind ColumnSchema HashJoinOutputSide columnNumericScale
  extractNumericTypmodScale toInt8)
open ProjectionLowering ProjectionRegisters ProjectionTape SqlLogic

/-! ## Types -/

abbrev boolOid : Nat := 16
abbrev int8Oid : Nat := 20
abbrev int2Oid : Nat := 21
abbrev int4Oid : Nat := 23
abbrev textOid : Nat := 25
abbrev float8Oid : Nat := 701
abbrev varcharOid : Nat := 1043
abbrev dateOid : Nat := 1082
abbrev numericOid : Nat := 1700

/-- `kProjectionDivisionScale`. -/
abbrev projectionDivisionScale : Int := 16

/-- What is inferred for an expression. -/
structure Inferred where
  typeOid : Nat
  typmod : Int
  scale : Int
  deriving DecidableEq, Repr

/-- `then_integral` and `else_integral`. -/
def isIntegral (typeOid : Nat) : Bool :=
  typeOid = boolOid || typeOid = int4Oid || typeOid = int8Oid

/-- The type of a constant, by its text. -/
def inferConstant (text : Bytes) : Inferred :=
  if equalsIgnoreCase text trueText || equalsIgnoreCase text falseText then ⟨boolOid, -1, 0⟩
  else if point ∈ text then ⟨numericOid, -1, decimals text⟩
  else ⟨int8Oid, -1, 0⟩

/-- The type of a CASE, by those of its first THEN and its ELSE. -/
def inferCase (thn els : Inferred) : Option Inferred :=
  if isIntegral thn.typeOid && isIntegral els.typeOid then some ⟨int8Oid, -1, 0⟩
  else if thn.typeOid = numericOid ∨ els.typeOid = numericOid then
    some ⟨numericOid, -1, max thn.scale els.scale⟩
  else if thn.typeOid = els.typeOid then some thn
  else none

/-- The type of an operation, by the result type of its operator. -/
def inferBinary (op : ProjectionSteps.ArithOp) (opRettype : Nat) (lhs rhs : Inferred) : Inferred :=
  if opRettype = int4Oid ∨ opRettype = int8Oid then ⟨opRettype, -1, 0⟩
  else
    ⟨numericOid, -1,
      match op with
      | .mul => scale8 (lhs.scale + rhs.scale)
      | .div => projectionDivisionScale
      | .add | .sub => max lhs.scale rhs.scale⟩

/-- `InferProjectionExprSchema`. -/
def inferProjectionExprSchema (columns : Columns) : Expr → Option Inferred
  | .column col => (columns col).map fun source =>
    ⟨source.typeOid, source.typmod, columnNumericScale source.toColumnSchema⟩
  | .constant value => some (inferConstant (value.getD []))
  | .cast child => inferProjectionExprSchema columns child
  | .case _ thenArm _ elseArm => do
    let thn ← inferProjectionExprSchema columns thenArm
    let els ← inferProjectionExprSchema columns elseArm
    inferCase thn els
  | .extract _ _ => some ⟨numericOid, -1, 0⟩
  | .binary op opRettype lhs rhs => do
    let l ← inferProjectionExprSchema columns lhs
    let r ← inferProjectionExprSchema columns rhs
    some (inferBinary op opRettype l r)

/-! ## Entries -/

/-- `MakeNumericTypmod`. -/
def makeNumericTypmod (precision : Nat) (scale : Int) : Int := precision * 2 ^ 16 + scale % 2 ^ 11 + 4

/-- The decode kind and the type modifier of a projected column, by its type. -/
def projectedKind (typeOid : Nat) (typmod scale : Int) : Option (ColumnDecodeKind × Int) :=
  if typeOid = boolOid ∨ typeOid = int8Oid ∨ typeOid = int4Oid then some (.int64Int8, -1)
  else if typeOid = float8Oid then some (.doubleFloat8, -1)
  else if typeOid = dateOid then some (.int32Date, -1)
  else if typeOid = numericOid then some (.int64NumericScaled, makeNumericTypmod 18 scale)
  else if typeOid = bpcharOid ∨ typeOid = textOid ∨ typeOid = varcharOid then some (.stringRef, typmod)
  else none

/-- A slot has a number of eight bits. -/
def SourceColumn.inSlot (source : ColumnSchema) (slot : Nat) : SourceColumn :=
  ⟨source, slot % 256, Nat.mod_lt _ (by decide)⟩

/-- `MapProjectedExprSchema`. -/
def mapProjectedExprSchema (typeOid : Nat) (typmod scale : Int) (slot : Nat) :
    Option SourceColumn :=
  (projectedKind typeOid typmod scale).map fun (kind, typmod) =>
    SourceColumn.inSlot ⟨typeOid, typmod, kind, .left⟩ slot

/-- The entry that is published for an item, by what has been inferred for it and by the scale and
the slot that the lowering has found. A column keeps its entry. -/
def publishedEntry (columns : Columns) (e : Expr) (scale : Int) (slot : Nat) : Option SourceColumn :=
  (inferProjectionExprSchema columns e).bind fun inferred =>
    match e with
    | .column col => (columns col).map fun source => SourceColumn.inSlot source.toColumnSchema slot
    | _ => mapProjectedExprSchema inferred.typeOid inferred.typmod scale slot

/-! ## What an entry says of a row -/

/-- The value of a column. -/
inductive Datum
  | number (q : ℚ)
  | date (day : Int32)
  | char (code : Int32)
  | text (bytes : Bytes)
  deriving DecidableEq

/-- **What a parent reads** in a row by an entry. The rows of a tape have no `float8`. -/
def readEntry (entry : SourceColumn) (row : Row) : Option Datum :=
  match entry.decodeKind with
  | .int32Int4 => (row.int32Cell entry.chunkSlot).map fun v => .number v.toInt
  | .int32Date => (row.int32Cell entry.chunkSlot).map .date
  | .int32Char => (row.int32Cell entry.chunkSlot).map .char
  | .int64Int8 => (row.register entry.chunkSlot).map fun v => .number v.toInt
  | .int64NumericScaled => (row.register entry.chunkSlot).map fun v =>
    .number (v.toInt / 10 ^ columnNumericScale entry.toColumnSchema)
  | .stringRef => (row.stringCell entry.chunkSlot).map .text
  | .doubleFloat8 => none

/-- **The kinds of a schema are those of its types**, as the translators of scans, projections,
joins and aggregates have them. -/
def Typed (columns : Columns) : Prop :=
  ∀ col source, columns col = some source →
    (source.decodeKind = .int64Int8 → isIntegral source.typeOid = true) ∧
      (source.decodeKind = .int64NumericScaled → source.typeOid = numericOid)

/-! ## Scales of eight bits -/

/-- A scale as the code has it. -/
def EightBits (scale : Int) : Prop := -128 ≤ scale ∧ scale < 128

theorem toInt8_eightBits (v : Int) : EightBits (toInt8 v) := by
  unfold EightBits toInt8
  have hle := Int.le_bmod (x := v) (m := 256) (by decide)
  have hlt := Int.bmod_lt (x := v) (m := 256) (by decide)
  omega

theorem EightBits.max {a b : Int} (ha : EightBits a) (hb : EightBits b) : EightBits (max a b) := by
  unfold EightBits at *
  omega

theorem columnNumericScale_eightBits (col : ColumnSchema) : EightBits (columnNumericScale col) := by
  rw [columnNumericScale]
  split
  · split
    · exact toInt8_eightBits _
    · unfold EightBits
      omega
  · unfold EightBits
    omega

theorem decimals_eightBits (text : Bytes) : EightBits (decimals text) := by
  rw [decimals]
  split
  · exact toInt8_eightBits _
  · unfold EightBits
    omega

/-- The scale of an expression has eight bits. -/
theorem scale_eightBits (columns : Columns) : ∀ e : Expr, EightBits (scale columns e)
  | .column col => by
    rw [scale]
    cases columns col with
    | none =>
      unfold EightBits
      simp
    | some source => exact columnNumericScale_eightBits _
  | .constant value => by
    rw [scale]
    exact decimals_eightBits _
  | .cast child => by
    rw [scale]
    exact scale_eightBits columns child
  | .extract _ _ => by
    rw [scale]
    unfold EightBits
    omega
  | .binary op _ lhs rhs => by
    have hl := scale_eightBits columns lhs
    have hr := scale_eightBits columns rhs
    cases op with
    | div =>
      rw [scale, ProjectionSteps.divisionScale]
      split
      · unfold EightBits at *
        omega
      · unfold EightBits
        omega
    | mul =>
      rw [scale]
      exact toInt8_eightBits _
    | add =>
      rw [scale]
      exact hl.max hr
    | sub =>
      rw [scale]
      exact hl.max hr
  | .case _ thenArm _ elseArm => by
    rw [scale]
    split
    · exact scale_eightBits columns thenArm
    · exact (scale_eightBits columns thenArm).max (scale_eightBits columns elseArm)

/-- The eleven bits of a scale, with the sign turned over. -/
theorem xor_sign : ∀ k < 128, k ^^^ 1024 = k + 1024 ∧ (1920 + k) ^^^ 1024 = 896 + k := by
  decide

/-- **A scale of eight bits comes back from the type modifier.** -/
theorem columnNumericScale_projected {scale : Int} (h : EightBits scale) (typeOid : Nat)
    (side : HashJoinOutputSide) :
    columnNumericScale ⟨typeOid, makeNumericTypmod 18 scale, .int64NumericScaled, side⟩ = scale := by
  unfold EightBits at h
  have htypmod : (makeNumericTypmod 18 scale - 4).toNat = 18 * 2 ^ 16 + (scale % 2 ^ 11).toNat := by
    unfold makeNumericTypmod
    omega
  have hlow : (18 * 2 ^ 16 + (scale % 2 ^ 11).toNat) &&& 0x7ff = (scale % 2 ^ 11).toNat := by
    rw [show (0x7ff : Nat) = 2 ^ 11 - 1 from rfl, Nat.and_two_pow_sub_one_eq_mod]
    omega
  have hextract : extractNumericTypmodScale (makeNumericTypmod 18 scale) = scale := by
    rw [extractNumericTypmodScale, if_neg (by unfold makeNumericTypmod; omega), htypmod, hlow]
    rcases le_or_gt 0 scale with hnonneg | hneg
    · obtain ⟨k, rfl⟩ := Int.eq_ofNat_of_zero_le hnonneg
      have hbits : ((k : Int) % 2 ^ 11).toNat = k := by omega
      rw [hbits, (xor_sign k (by omega)).1]
      omega
    · obtain ⟨k, hk⟩ := Int.eq_ofNat_of_zero_le (show 0 ≤ scale + 128 by omega)
      have hbits : (scale % 2 ^ 11).toNat = 1920 + k := by omega
      rw [hbits, (xor_sign k (by omega)).2]
      omega
  have hmodifier : 4 ≤ makeNumericTypmod 18 scale := by
    unfold makeNumericTypmod
    omega
  rw [columnNumericScale, if_pos rfl, if_pos hmodifier, hextract, toInt8]
  exact Int.bmod_eq_of_le (by omega) (by omega)

/-! ## What is inferred for an expression over integers -/

/-- A type whose values lie in the `int64` array. -/
def InInt64 (inferred : Inferred) : Prop :=
  isIntegral inferred.typeOid = true ∨ inferred.typeOid = numericOid

theorem inferConstant_inInt64 (text : Bytes) : InInt64 (inferConstant text) := by
  rw [inferConstant]
  split
  · exact .inl (by decide)
  · split
    · exact .inr rfl
    · exact .inl (by decide)

theorem inferCase_inInt64 {thn els inferred : Inferred} (hthn : InInt64 thn) 
    (h : inferCase thn els = some inferred) : InInt64 inferred := by
  rw [inferCase] at h
  split at h
  · cases h
    exact .inl (by decide)
  · split at h
    · cases h
      exact .inr rfl
    · split at h
      · cases h
        exact hthn
      · cases h

theorem inferBinary_inInt64 (op : ProjectionSteps.ArithOp) (opRettype : Nat) (lhs rhs : Inferred) :
    InInt64 (inferBinary op opRettype lhs rhs) := by
  unfold inferBinary
  split
  · next h =>
    rcases h with rfl | rfl
    · exact .inl (by decide)
    · exact .inl (by decide)
  · exact .inr rfl

/-- **An expression that computes with columns of the `int64` array has a type that is looked for
there.** -/
theorem inferred_inInt64 {columns : Columns} (htyped : Typed columns) :
    ∀ (e : Expr) {next : Nat} {written : Set Nat} {inferred : Inferred},
      ExprReads columns e next written → inferProjectionExprSchema columns e = some inferred →
        InInt64 inferred
  | .column col, next, written, inferred, hreads, h => by
    rw [ExprReads] at hreads
    rw [inferProjectionExprSchema] at h
    obtain ⟨source, hcol, rfl⟩ := Option.map_eq_some_iff.1 h
    obtain ⟨hint8, hnumeric⟩ := htyped col source hcol
    have hstorage := hreads.2 source hcol
    cases hkind : source.decodeKind with
    | int64Int8 => exact .inl (hint8 hkind)
    | int64NumericScaled => exact .inr (hnumeric hkind)
    | _ =>
      rw [hkind] at hstorage
      cases hstorage
  | .constant value, next, written, inferred, _, h => by
    rw [inferProjectionExprSchema] at h
    cases h
    exact inferConstant_inInt64 _
  | .cast child, next, written, inferred, hreads, h => by
    rw [ExprReads] at hreads
    rw [inferProjectionExprSchema] at h
    exact inferred_inInt64 htyped child hreads h
  | .extract _ _, next, written, inferred, _, h => by
    rw [inferProjectionExprSchema] at h
    cases h
    exact .inr rfl
  | .binary op opRettype lhs rhs, next, written, inferred, _, h => by
    rw [inferProjectionExprSchema] at h
    obtain ⟨l, -, h⟩ := Option.bind_eq_some_iff.1 h
    obtain ⟨r, -, h⟩ := Option.bind_eq_some_iff.1 h
    cases h
    exact inferBinary_inInt64 op opRettype l r
  | .case _ thenArm _ elseArm, next, written, inferred, hreads, h => by
    rw [ExprReads] at hreads
    rw [inferProjectionExprSchema] at h
    obtain ⟨thn, hthn, h⟩ := Option.bind_eq_some_iff.1 h
    obtain ⟨els, -, h⟩ := Option.bind_eq_some_iff.1 h
    exact inferCase_inInt64 (inferred_inInt64 htyped thenArm hreads.2.1 hthn) h

end ProjectionSchemas
end PgYaap
