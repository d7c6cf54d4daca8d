import PgYaap.ColumnSlots
import PgYaap.StoredNumeric
import PgYaap.TupleDataCollectionRows

/-! # Columns from the heap to the output

What the deformer makes of the attributes of a heap tuple and what the output sink makes of
the columns of its row store. A variable-length attribute is read in place: of a compressed
or out-of-line one the deformer sees the compressed bytes or the pointer. -/
namespace PgYaap
namespace HeapColumns

open ColumnSlots HashJoinProbe StoredNumeric

/-! ## Stored values -/

/-- A variable-length attribute: its bytes, and for a compressed or an out-of-line one the
bytes in its place, which are fewer. -/
inductive Varlena
  | inline (bytes : List UInt8)
  | toasted (inPlace bytes : List UInt8)

/-- The value. -/
def Varlena.bytes : Varlena → List UInt8
  | inline bytes => bytes
  | toasted _ bytes => bytes

/-- The bytes at `VARDATA_ANY`, as many as `VARSIZE_ANY_EXHDR`. -/
def Varlena.vardataAny : Varlena → List UInt8
  | inline bytes => bytes
  | toasted inPlace _ => inPlace

/-- An attribute that is not NULL. Of a `"char"` the three bytes behind it are kept too. -/
inductive StoredValue
  | int4 (v : Int32)
  | int8 (v : Int64)
  | date (v : Int32)
  | char (v next next' next'' : UInt8)
  | float8 (bits : UInt64)
  | numeric (n : NumericDatum)
  | bpchar (v : Varlena)
  | varchar (v : Varlena)
  | text (v : Varlena)

/-- Values of the output; a numeric by its value, strings by their bytes. -/
inductive SqlValue
  | bool (v : Bool)
  | int4 (v : Int32)
  | int8 (v : Int64)
  | date (v : Int32)
  | char (v : UInt8)
  | float8 (bits : UInt64)
  | numeric (v : ℚ)
  | bpchar (bytes : List UInt8)
  | varchar (bytes : List UInt8)
  | text (bytes : List UInt8)
  deriving DecidableEq

/-- The value of an attribute. -/
def StoredValue.value : StoredValue → SqlValue
  | int4 v => .int4 v
  | int8 v => .int8 v
  | date v => .date v
  | char v _ _ _ => .char v
  | float8 bits => .float8 bits
  | numeric n => .numeric n.value
  | bpchar v => .bpchar v.bytes
  | varchar v => .varchar v.bytes
  | text v => .text v.bytes

/-- The characters of UTF-8 bytes: the bytes that do not continue one. -/
def charLength (bytes : List UInt8) : Nat := bytes.countP fun b => b &&& 0xC0 ≠ 0x80

/-- The bytes of a compressed or out-of-line attribute: at least a header of four bytes, and
fewer than the value has. -/
def Varlena.WellFormed : Varlena → Prop
  | inline _ => True
  | toasted inPlace bytes => 4 ≤ inPlace.length ∧ inPlace.length < bytes.length

/-- The bytes of a string with a declared length: no zero byte, and at most four bytes for a
character. -/
structure IsString (bytes : List UInt8) : Prop where
  nonzero : ∀ b ∈ bytes, b ≠ 0
  length_le : bytes.length ≤ 4 * charLength bytes

/-- The values a column can hold. Numerics are those whose scaled integer is in range; a
`char(n)` is padded to its length. -/
inductive OfColumn (attr : Attribute) : StoredValue → Prop
  | int4 (v : Int32) : attr.atttypid = int4Oid → OfColumn attr (.int4 v)
  | int8 (v : Int64) : attr.atttypid = int8Oid → OfColumn attr (.int8 v)
  | date (v : Int32) : attr.atttypid = dateOid → OfColumn attr (.date v)
  | char (v next next' next'' : UInt8) : attr.atttypid = charOid →
    OfColumn attr (.char v next next' next'')
  | float8 (bits : UInt64) : attr.atttypid = float8Oid → OfColumn attr (.float8 bits)
  | numeric (n : NumericDatum) : attr.atttypid = numericOid → n.WellFormed →
    FitsInt64 (n.value * 10 ^ getNumericScaleFromTypmod attr.atttypmod) →
    OfColumn attr (.numeric n)
  | bpchar (v : Varlena) : attr.atttypid = bpcharOid → v.WellFormed → IsString v.bytes →
    (varhdrsz ≤ attr.atttypmod → (charLength v.bytes : Int) = attr.atttypmod - varhdrsz) →
    OfColumn attr (.bpchar v)
  | varchar (v : Varlena) : attr.atttypid = varcharOid → v.WellFormed → IsString v.bytes →
    (varhdrsz ≤ attr.atttypmod → (charLength v.bytes : Int) ≤ attr.atttypmod - varhdrsz) →
    OfColumn attr (.varchar v)
  | text (v : Varlena) : attr.atttypid = textOid → v.WellFormed → OfColumn attr (.text v)

/-! ## Deforming -/

/-- `DeformDecodeKind`. -/
inductive DeformDecodeKind
  | int32
  | int64
  | date32
  | float8
  | numeric
  | stringRef
  | bpchar1
  deriving DecidableEq

/-- `MapColumnToDeformKind`. -/
def mapColumnToDeformKind (typeOid : Nat) : ColumnDecodeKind → Option DeformDecodeKind
  | .int32Char => some (if typeOid = bpcharOid then .bpchar1 else .int32)
  | .int32Date => some .date32
  | .int32Int4 => some .int32
  | .int64Int8 => some .int64
  | .int64NumericScaled => some .numeric
  | .doubleFloat8 => some .float8
  | .stringRef => some .stringRef
  | .none => none

/-- `DataChunk::store_string_bytes`. -/
def storeStringBytes (bytes : List UInt8) : Except String Datum :=
  if 65536 < bytes.length then
    .error "pg_yaap suspicious string length %u while materializing DataChunk"
  else .ok (.stringRef bytes)

/-- The switch of `DataChunkDeformer::deform_tuple_header` over the decode kinds. The kind
comes from the type of the attribute; the last case is no pair of these. -/
def deformAttribute (kind : DeformDecodeKind) (typmod : Int) (v : StoredValue) :
    Except String Datum :=
  match kind, v with
  | .int32, .int4 v => .ok (.int32 v)
  | .int32, .char v next next' next'' =>
    .ok (.int32 (UInt32.ofNat (ByteMemory.decode [v, next, next', next''])).toInt32)
  | .date32, .date v => .ok (.int32 v)
  | .int64, .int8 v => .ok (.int64 v)
  | .float8, .float8 bits => .ok (.double bits)
  | .bpchar1, .bpchar v => .ok (.int32 (Int32.ofNat (v.vardataAny.headD 0).toNat))
  | .numeric, .numeric n => (deformNumeric typmod n).map fun scaled => .int64 (Int64.ofInt scaled)
  | .stringRef, .bpchar v => storeStringBytes v.vardataAny
  | .stringRef, .varchar v => storeStringBytes v.vardataAny
  | .stringRef, .text v => storeStringBytes v.vardataAny
  | _, _ => .error "pg_yaap: attribute type mismatch"

/-- What the scan writes into the chunk for an attribute of the relation. -/
def deformColumn (attr : Attribute) (v : StoredValue) : Except String Datum :=
  ((seqScanDecodeKind attr).bind (mapColumnToDeformKind attr.atttypid)).elim
    (.error "pg_yaap: unsupported column") fun kind => deformAttribute kind attr.atttypmod v

/-! ## The layout of the row store -/

/-- `ExtractNumericTypmodScale`. -/
def extractNumericTypmodScale (typmod : Int) : Int :=
  if typmod < varhdrsz then 0 else getNumericScaleFromTypmod typmod

/-- `ColumnNumericScale`; the scale is kept in eight bits. -/
def columnNumericScale (col : ColumnSchema) : Int :=
  if col.decodeKind = .int64NumericScaled then
    if varhdrsz ≤ col.typmod then (extractNumericTypmodScale col.typmod).bmod (2 ^ 8) else 2
  else 0

/-- A column of `BuildColumnOnlyLayout`. -/
def appendSchemaColumn (layout : TupleDataLayout) (col : ColumnSchema) :
    Except String TupleDataLayout :=
  col.decodeKind.toTdcKind.elim (.error "pg_yaap: column without a storage kind") fun kind =>
    layout.appendColumn kind col.chunkSlot col.typeOid (columnNumericScale col)

/-- `BuildColumnOnlyLayout`. -/
def buildColumnOnlyLayout (schema : List ColumnSchema) : Except String TupleDataLayout :=
  schema.foldlM appendSchemaColumn TupleDataLayout.init

/-! ## Encoding -/

/-- `pnstrdup` of a string that may have zero bytes. -/
def pnstrdup (bytes : List UInt8) : List UInt8 := bytes.takeWhile (· ≠ 0)

/-- The bytes of the first `n` characters, and the rest. -/
def splitChars : Nat → List UInt8 → List UInt8 × List UInt8
  | _, [] => ([], [])
  | n, b :: bytes =>
    if b &&& 0xC0 = 0x80 then (splitChars n bytes).map (b :: ·) id
    else if n = 0 then ([], b :: bytes)
    else (splitChars (n - 1) bytes).map (b :: ·) id

/-- A string brought down to `n` characters; only blanks may be cut off. -/
def truncateChars (n : Nat) (bytes : List UInt8) (what : String) : Except String (List UInt8) :=
  if charLength bytes ≤ n then .ok bytes
  else if (splitChars n bytes).2.all (· = 32) then .ok (splitChars n bytes).1
  else .error what

/-- `varcharin`. -/
def varcharin (typmod : Int) (bytes : List UInt8) : Except String (List UInt8) :=
  if typmod < varhdrsz then .ok bytes
  else truncateChars (typmod - varhdrsz).toNat bytes
    "value too long for type character varying(%zu)"

/-- `bpcharin`, which pads with blanks. -/
def bpcharin (typmod : Int) (bytes : List UInt8) : Except String (List UInt8) :=
  if typmod < varhdrsz then .ok bytes
  else (truncateChars (typmod - varhdrsz).toNat bytes
      "value too long for type character(%zu)").map fun bytes =>
    bytes ++ List.replicate ((typmod - varhdrsz).toNat - charLength bytes) 32

def boolOid : Nat := 16

/-- `EncodeStringDatum`. -/
def encodeStringDatum (col : ColumnSchema) (bytes : List UInt8) : Except String SqlValue :=
  if col.typeOid = textOid then .ok (.text bytes)
  else if col.typeOid = varcharOid then (varcharin col.typmod (pnstrdup bytes)).map .varchar
  else if col.typeOid = bpcharOid then (bpcharin col.typmod (pnstrdup bytes)).map .bpchar
  else .error "pg_yaap: string decode_kind unsupported for output type %u"

/-- The switch of `EncodeColumnFromRow`, for the value of a column of the layout and its
scale. -/
def encodeValue (col : ColumnSchema) (scale : Int) (d : Datum) : Except String SqlValue :=
  match col.decodeKind, d with
  | .int32Char, .int32 v => .ok (.char v.toUInt32.toUInt8)
  | .int32Date, .int32 v => .ok (.date v)
  | .int32Int4, .int32 v => .ok (.int4 v)
  | .int64Int8, .int64 v =>
    .ok (if col.typeOid = boolOid then .bool (v ≠ 0)
      else if col.typeOid = int4Oid then .int4 v.toInt32
      else .int8 v)
  | .doubleFloat8, .double bits => .ok (.float8 bits)
  | .stringRef, .stringRef bytes => encodeStringDatum col bytes
  | .int64NumericScaled, .int64 v => .ok (.numeric ((v.toInt : ℚ) / 10 ^ scale))
  | _, _ => .error "pg_yaap: unknown decode_kind %u"

/-- `EncodeColumnFromRow`, for a layout without aggregates. -/
def encodeColumnFromRow (col : ColumnSchema) (layout : TupleDataLayout) (t : TupleDataCollection)
    (rowIdx : Nat) : Except String SqlValue :=
  match layout.columns.find? fun c =>
      c.srcColIdx = col.chunkSlot ∧ some c.kind = col.decodeKind.toTdcKind with
  | some c => encodeValue col c.numericScale (t.decodeColumn rowIdx c)
  | none => .error "pg_yaap: output chunk slot %u not present in row layout"

/-- A single character is wrapped for an output column of type `bpchar`. -/
def wrapBpchar (atttypid : Nat) (col : ColumnSchema) : SqlValue → SqlValue
  | .char c => if atttypid = bpcharOid ∧ col.decodeKind = .int32Char then .bpchar [c] else .char c
  | v => v

/-- The value `EmitGlobalTdcToDest` puts into the tuple, for an output column of type
`atttypid`. -/
def emitColumn (atttypid : Nat) (col : ColumnSchema) (layout : TupleDataLayout)
    (t : TupleDataCollection) (rowIdx : Nat) : Except String SqlValue :=
  (encodeColumnFromRow col layout t rowIdx).map (wrapBpchar atttypid col)

end HeapColumns
end PgYaap
