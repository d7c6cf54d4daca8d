import PgYaap.HeapTuples
import PgYaap.NumericColumns
import PgYaap.SimpleFilterSteps

/-! # The scratch row of a scan filter

Before the filter of a scan looks at a tuple, the columns it compares are decoded into a scratch
row, one slot for each input. How a column is decoded comes from the kind it is stored as, the
array it is put into from the kind the filter wants. The two differ for the columns of a
comparison of two kinds of numbers, and nothing between the two brings the value to the scale of
the comparison. -/
namespace PgYaap
namespace FilterScratch

open FilterProgram SimpleFilterSteps HeapTuples
open StoredNumeric NumericColumns

/-! ## Relations and the inputs of a filter -/

/-- The length of the types a scan reads; `none` inside stands for -1. -/
def typlen (oid : Nat) : Option (Option Nat) :=
  if oid = ColumnSlots.charOid then some (some 1)
  else if oid = ColumnSlots.dateOid ∨ oid = ColumnSlots.int4Oid then some (some 4)
  else if oid = ColumnSlots.int8Oid ∨ oid = ColumnSlots.float8Oid then some (some 8)
  else if oid = ColumnSlots.bpcharOid ∨ oid = ColumnSlots.numericOid ∨ oid = ColumnSlots.textOid ∨
      oid = ColumnSlots.varcharOid then some none
  else none

/-- An attribute of the relation: how it lies in a tuple, and its type, which has its length. -/
structure RelationColumn extends CompactAttribute where
  atttypid : Nat
  attlen_eq : ∀ len, typlen atttypid = some len → attlen = len

/-- What the translator reads of it. -/
def RelationColumn.attribute (c : RelationColumn) : ColumnSlots.Attribute where
  atttypid := c.atttypid
  atttypmod := c.atttypmod
  attlen := c.attlen.elim (-1) Nat.cast
  attbyval := c.attlen.isSome

/-- The decode kinds of a filter are those of a chunk. -/
def filterKind : HashJoinProbe.ColumnDecodeKind → Option ColumnDecodeKind
  | .int32Char => some .int32Char
  | .int32Date => some .int32Date
  | .int32Int4 => some .int32Int4
  | .int64Int8 => some .int64Int8
  | .int64NumericScaled => some .int64NumericScaled
  | .doubleFloat8 => some .doubleFloat8
  | .stringRef => some .stringRef
  | .none => none

/-- The kind a column of the relation is stored as. -/
def RelationColumn.sourceKind (c : RelationColumn) : Option ColumnDecodeKind :=
  (ColumnSlots.seqScanDecodeKind c.attribute).bind filterKind

/-- The columns of a scan by attribute number. -/
def scanSchema (rel : List RelationColumn) : Schema := fun attno =>
  if attno = 0 then none
  else rel[attno - 1]?.bind fun c => c.sourceKind.map fun kind =>
    ⟨c.atttypid, c.atttypmod, kind, .left⟩

/-- What the lowering asks for: a column as it is stored, or one of two columns of different
kinds of numbers at the larger of their scales. -/
inductive Requestable (schema : Schema) : InputRequest → Prop
  | own {col : Nat} {s : ColumnSchema} : schema col = some s → s.decodeKind ≠ .doubleFloat8 →
    Requestable schema (.own col)
  | promoted {col other : Nat} {s s' : ColumnSchema} : schema col = some s →
    schema other = some s' → s.decodeKind ≠ s'.decodeKind → isNumericFamily s.decodeKind = true →
    isNumericFamily s'.decodeKind = true → Requestable schema (.promoted col (scanTargetScale s s'))

/-- The description of something the lowering asks for. -/
def Described (schema : Schema) (d : FilterInputDesc) : Prop :=
  ∃ request, Requestable schema request ∧ requestDesc schema request = some d

/-- A list of inputs as it is published. -/
structure Published (schema : Schema) (inputs : List FilterInputDesc) : Prop where
  described : ∀ d ∈ inputs, Described schema d
  length_le : inputs.length ≤ filterMaxInputs

/-! ## The deform program and its bindings -/

/-- The switch of `BuildFilterDeformProgram`. -/
def filterDeformKind : ColumnDecodeKind → Option HeapColumns.DeformDecodeKind
  | .int32Char => some .bpchar1
  | .int32Date => some .date32
  | .int32Int4 => some .int32
  | .int64Int8 => some .int64
  | .int64NumericScaled => some .numeric
  | .stringRef => some .stringRef
  | .doubleFloat8 => none

/-- The target of an input, which goes into the slot of its number. -/
def filterTarget (x : FilterInputDesc × Nat) : Option DeformTarget :=
  if x.1.attno = 0 then none
  else (filterDeformKind x.1.sourceDecodeKind).map (⟨x.1.attno - 1, x.2, ·⟩)

/-- `BuildFilterDeformProgram`. -/
def buildFilterDeformProgram (inputs : List FilterInputDesc) : Option DeformProgram :=
  if inputs = [] ∨ filterMaxInputs < inputs.length then none
  else (inputs.zipIdx.mapM filterTarget).map finalize

/-- The arrays of a chunk an input can be bound to. -/
inductive ScratchArray
  | int32
  | int64
  | string
  deriving DecidableEq

/-- The array of the kind the filter wants. -/
def bindingArray : ColumnDecodeKind → Option ScratchArray
  | .int32Char | .int32Date | .int32Int4 => some .int32
  | .int64Int8 | .int64NumericScaled => some .int64
  | .stringRef => some .string
  | .doubleFloat8 => none

/-- `BuildFilterDeformBindings`. -/
def buildFilterDeformBindings (inputs : List FilterInputDesc) : Except String (List ScratchArray) :=
  inputs.mapM fun input => (bindingArray input.decodeKind).elim
    (.error "pg_yaap: qual decode kind=%u unsupported") .ok

/-- Eight bytes over the first two rows of a slot of four-byte values. -/
def setEightBytes (columns : Nat → Nat → Int32) (slot : Nat) (v : Int64) : Nat → Nat → Int32 :=
  Function.update columns slot
    (Function.update (Function.update (columns slot) 0 v.toInt32) 1 (v >>> 32).toInt32)

/-- A store at the head of the array an input is bound to. Four bytes are stored into the low
half of an eight-byte slot, eight bytes over two of four; the other pairs are of one array. -/
def store (chunk : FilterChunk) (slot : Nat) :
    ScratchArray → Datum → Except String FilterChunk
  | .int64, .int32 v =>
    .ok { chunk with int64 := setFirst chunk.int64 slot (storeInt32 (chunk.int64 slot 0) v) }
  | .int32, .int64 v =>
    .ok { chunk with int32 := setEightBytes chunk.int32 slot v }
  | _, d => chunk.put slot d

/-- What the deformer writes for a target, put where its bindings say. -/
def storeWrite (bindings : List ScratchArray) (chunk : FilterChunk) (w : Write) :
    Except String FilterChunk :=
  match w.cell with
  | none => .ok { chunk with nulls := setFirst chunk.nulls w.dstCol true }
  | some (.error e) => .error e
  | some (.ok d) =>
    store { chunk with nulls := setFirst chunk.nulls w.dstCol false } w.dstCol
      (bindings.getD w.dstCol .int32) d

/-! ## Attributes of variable length -/

/-- A compressed or an out-of-line value, by the tag of its header. -/
def isToasted (bytes : List UInt8) : Bool :=
  bytes.headD 0 = 1 || (bytes.headD 0).toNat % 4 = 2

/-- A word of a numeric on disk. -/
def numericWord (data : List UInt8) (i : Nat) : UInt16 :=
  UInt16.ofNat (ByteMemory.decode ((data.drop (2 * i)).take 2))

/-- The words of the header of a numeric. -/
def numericHeaderWords (data : List UInt8) : Nat :=
  if numericWord data 0 &&& 0x8000 ≠ 0 then 1 else 2

/-- The numeric on disk: a header of one word or two, and the digits. -/
def numericDatum (data : List UInt8) : NumericDatum where
  header := numericWord data 0
  weightWord := (numericWord data 1).toInt16
  digits := (List.range ((data.length - 2 * numericHeaderWords data) / 2)).map fun i =>
    (numericWord data (numericHeaderWords data + i)).toInt16

section Deform

-- `detoast` is the server's: what stands behind the header once the value is whole again.
variable (detoast : List UInt8 → List UInt8)

/-- The data of a value of variable length. -/
def payload (bytes : List UInt8) : List UInt8 :=
  if isToasted bytes then detoast bytes else vardataAny bytes

/-- A numeric attribute. -/
def numericAttribute (bytes : List UInt8) : NumericAttribute :=
  if isToasted bytes then .toasted (numericDatum (vardataAny bytes)) (numericDatum (detoast bytes))
  else .inline (numericDatum (vardataAny bytes))

/-- The case of the deformer for numerics, on the bytes of the attribute. -/
def decodeNumeric (typmod : Int) (bytes : List UInt8) : Except String Datum :=
  (deformNumericAttribute typmod (numericAttribute detoast bytes)).map
    fun scaled => .int64 (Int64.ofInt scaled)

variable (rel : List RelationColumn)

/-- The descriptor of the relation. -/
def descriptor : List CompactAttribute := rel.map RelationColumn.toCompactAttribute

/-- The arena is emptied where the program decodes a string. -/
def clearArena (program : DeformProgram) (chunk : FilterChunk) : FilterChunk :=
  if program.targets.any (·.decodeKind = .stringRef) then { chunk with arena := [] } else chunk

/-- **What `PhysicalSeqScan::GetData` does with a tuple before it looks at the filter.** -/
def filterDeform (inputs : List FilterInputDesc) (t : HeapTuple) (chunk : FilterChunk) :
    Except String FilterChunk := do
  let program ← (buildFilterDeformProgram inputs).elim
    (.error "pg_yaap: failed to build SeqScan filter deformer") .ok
  let bindings ← buildFilterDeformBindings inputs
  (t.deform (decodeNumeric detoast) (descriptor rel) program).foldlM (storeWrite bindings)
    (clearArena program chunk)

/-! ## What the slots should hold -/

/-- The value of a column as the filter takes it. -/
inductive ColumnValue
  | number (q : ℚ)
  | string (bytes : List UInt8)

/-- An integer of four bytes. -/
def int32At (bytes : List UInt8) : Int := (UInt32.ofNat (ByteMemory.decode bytes)).toInt32.toInt

/-- An integer of eight bytes. -/
def int64At (bytes : List UInt8) : Int := (UInt64.ofNat (ByteMemory.decode bytes)).toInt64.toInt

/-- The value of an attribute. A character is the number of its byte. A character of several
bytes has none, nor has NaN or an infinity. -/
def attributeValue (c : RelationColumn) (kind : ColumnDecodeKind) (bytes : List UInt8) :
    Option ColumnValue :=
  match kind with
  | .int32Char =>
    match if c.atttypid = ColumnSlots.charOid then bytes else payload detoast bytes with
    | [b] => some (.number b.toNat)
    | _ => none
  | .int32Date | .int32Int4 => some (.number (int32At bytes))
  | .int64Int8 => some (.number (int64At bytes))
  | .int64NumericScaled =>
    if (numericAttribute detoast bytes).stored.isSpecial then none
    else some (.number (numericAttribute detoast bytes).stored.value)
  | .stringRef => some (.string (payload detoast bytes))
  | .doubleFloat8 => none

/-- A slot reads as a string. -/
structure ReadsString (chunk : FilterChunk) (slot : Nat) (bytes : List UInt8) : Prop where
  len : (chunk.string slot 0).len = bytes.length
  reads : ∃ m, chunk.stringPtr slot 0 = some m ∧ m.read 0 bytes.length = bytes

/-- A slot holds a value, numbers times ten to the scale, in the array of the target kind. -/
def Holds (chunk : FilterChunk) (slot scale : Nat) (array : Option ScratchArray)
    (v : ColumnValue) : Prop :=
  match array, v with
  | some .int32, .number q => ((chunk.int32 slot 0).toInt : ℚ) = q * 10 ^ scale
  | some .int64, .number q => ((chunk.int64 slot 0).toInt : ℚ) = q * 10 ^ scale
  | some .string, .string bytes => ReadsString chunk slot bytes
  | _, _ => False

/-- **An input is held**: its slot has the value of the column, or the NULL flag, and what it
has comes from the bytes of the tuple. -/
structure InputHeld (t : HeapTuple) (c : RelationColumn) (input : FilterInputDesc)
    (chunk : FilterChunk) (slot : Nat) : Prop where
  null : t.heapGetattr (descriptor rel) (input.attno - 1) = none → chunk.nulls slot 0 = true
  value : ∀ bytes, t.heapGetattr (descriptor rel) (input.attno - 1) = some bytes →
    chunk.nulls slot 0 = false ∧
      ∃ v, attributeValue detoast c input.sourceDecodeKind bytes = some v ∧
        Holds chunk slot input.numericScale (bindingArray input.decodeKind) v
  within : ∀ kind, filterDeformKind input.sourceDecodeKind = some kind →
    t.isnull (input.attno - 1) = false →
    t.hoff + t.startOf (descriptor rel) c.toCompactAttribute (input.attno - 1) +
      max 1 (t.width kind (t.startOf (descriptor rel) c.toCompactAttribute (input.attno - 1))) ≤
        t.len

/-- The filter deform of a tuple leaves every input held. -/
def DeformsInputs (inputs : List FilterInputDesc) (t : HeapTuple) (chunk : FilterChunk) : Prop :=
  ∃ chunk', filterDeform detoast rel inputs t chunk = .ok chunk' ∧
    ∀ slot input c, inputs[slot]? = some input → rel[input.attno - 1]? = some c →
      InputHeld detoast rel t c input chunk' slot

/-- The attributes of a tuple are of their types: a `char(1)` has a character, and numerics are
as they are stored. -/
structure WellTyped (t : HeapTuple) : Prop where
  has_char : ∀ k c, rel[k]? = some c → k < t.natts → t.isnull k = false →
    c.atttypid = ColumnSlots.bpcharOid →
    varHeader (t.data (t.startOf (descriptor rel) c.toCompactAttribute k)) <
      t.varsizeAny (t.startOf (descriptor rel) c.toCompactAttribute k)
  numeric : ∀ k c, rel[k]? = some c → k < t.natts → t.isnull k = false →
    c.atttypid = ColumnSlots.numericOid →
    ∀ a, a = numericAttribute detoast (t.bytesAt (t.startOf (descriptor rel) c.toCompactAttribute k)
      (t.size c.toCompactAttribute (t.startOf (descriptor rel) c.toCompactAttribute k))) →
    a.stored.isSpecial = false → a.stored.WellFormed

/-! ## The inputs that are held -/

/-- What is left of a slot of eight bytes with four of them stored is `v` times ten to the
scale. -/
structure Int4Fits (v : Int) (slot : Int64) (scale : Nat) : Prop where
  unscaled : v = 0 ∨ scale = 0
  high : slot.toInt / 2 ^ 32 = if v < 0 then -1 else 0

/-- The hundredfold is the value at the scale. -/
def HundredfoldRight (n : NumericDatum) (scale : Nat) : Prop :=
  n.value = 0 ∨ (scale = 2 ∧ (n.value * 100).den = 1 ∧ FitsInt64 (n.value * 100))

/-- A numeric that is decoded into its value at the scale of the input. -/
def NumericFits (typmod : Int) (scale : Nat) (a : NumericAttribute) : Prop :=
  a.stored.isSpecial = false ∧
    match a with
    | .inline n =>
      (DigitsRead n (getNumericScaleFromTypmod typmod) ∧ FitsInt64 (n.value * 10 ^ scale)) ∨
        (¬ DigitsRead n (getNumericScaleFromTypmod typmod) ∧ HundredfoldRight n scale)
    | .toasted inPlace n =>
      match tryFastNumericToScaledInt64 inPlace (getNumericScaleFromTypmod typmod) with
      | some scaled => (scaled : ℚ) = n.value * 10 ^ scale
      | none => HundredfoldRight n scale

/-- A character whose byte is the first one of the data that its first byte announces. -/
def CharFits (t : HeapTuple) (start : Nat) : Prop :=
  t.data (start + varHeader (t.data start)) = t.data start ∧
    t.hoff + start + varHeader (t.data start) + 1 ≤ t.len

/-- **The attributes that are decoded into what the filter wants.** -/
def AttributeFits (t : HeapTuple) (c : RelationColumn) (input : FilterInputDesc) (slot : Int64)
    (start : Nat) : Prop :=
  let bytes := t.bytesAt start (t.size c.toCompactAttribute start)
  match input.sourceDecodeKind with
  | .int32Char =>
    if c.atttypid = ColumnSlots.charOid then CharFits t start
    else ∃ b, payload detoast bytes = [b] ∧ (vardataAny bytes).headD 0 = b
  | .int32Date => True
  | .int32Int4 =>
    input.decodeKind = .int32Int4 ∨ Int4Fits (int32At bytes) slot input.numericScale
  | .int64Int8 =>
    input.decodeKind = .int64Int8 ∨ int64At bytes = 0 ∨ input.numericScale = 0
  | .int64NumericScaled =>
    NumericFits c.atttypmod input.numericScale (numericAttribute detoast bytes)
  | .stringRef => payload detoast bytes = vardataAny bytes ∧ (vardataAny bytes).length ≤ 65536
  | .doubleFloat8 => False

/-- **When an input is held**: the tuple has the column, and it is NULL or decoded into what the
filter wants; or the tuple does not have it, the bit for it says NULL, and so does the
relation. -/
def InputFits (t : HeapTuple) (c : RelationColumn) (input : FilterInputDesc) (slot : Int64) :
    Prop :=
  if input.attno - 1 < t.natts then
    t.isnull (input.attno - 1) = false → AttributeFits detoast t c input slot
      (t.startOf (descriptor rel) c.toCompactAttribute (input.attno - 1))
  else t.isnull (input.attno - 1) = true ∧ c.missing = none

end Deform

/-! ## The walk -/

section Walk

variable {dn : Int → List UInt8 → Except String Datum} {t : HeapTuple}
  {desc : List CompactAttribute}

/-- What is written for a target: its attribute is found where the attributes before it end. -/
def writeFor (dn : Int → List UInt8 → Except String Datum) (t : HeapTuple)
    (desc : List CompactAttribute) (target : DeformTarget) : Write :=
  ⟨target.dstCol, desc[target.attIndex]?.bind fun att =>
    if t.isnull target.attIndex then none
    else some (fetch dn target.decodeKind att.atttypmod
      (t.bytesAt (t.startOf desc att target.attIndex)
        (t.width target.decodeKind (t.startOf desc att target.attIndex))))⟩

theorem deformLoop_eq {pre atts post : List CompactAttribute} (hdesc : desc = pre ++ atts ++ post)
    {targets : List DeformTarget}
    (hsorted : targets.Pairwise fun a b => a.attIndex ≤ b.attIndex)
    (hrange : ∀ target ∈ targets, pre.length ≤ target.attIndex ∧
      target.attIndex < pre.length + atts.length) :
    t.deformLoop dn atts pre.length (t.offsetBehind pre 0 0) targets =
      targets.map (writeFor dn t desc) := by
  induction atts generalizing pre targets with
  | nil =>
    have hempty : targets = [] := List.eq_nil_iff_forall_not_mem.2 fun target h => by
      have := hrange target h
      simp only [List.length_nil] at this
      omega
    rw [hempty]
    rfl
  | cons att atts ih =>
    have hatt : desc[pre.length]? = some att := by
      rw [hdesc, List.append_assoc, List.getElem?_append_right le_rfl, Nat.sub_self]
      rfl
    have htake : desc.take pre.length = pre := by
      rw [hdesc, List.append_assoc, List.take_left]
    have hnext : t.next att pre.length (t.offsetBehind pre 0 0) =
        t.offsetBehind (pre ++ [att]) 0 0 := by
      have hsucc := @offsetBehind_succ t desc att pre.length hatt
      rw [htake] at hsucc
      rw [← hsucc, List.take_add_one, htake, hatt]
      rfl
    have hlater := lt_of_mem_dropWhile hsorted fun target h => (hrange target h).1
    have hrest : t.deformLoop dn atts (pre.length + 1) (t.offsetBehind (pre ++ [att]) 0 0)
        (targets.dropWhile (·.attIndex = pre.length)) =
        (targets.dropWhile (·.attIndex = pre.length)).map (writeFor dn t desc) := by
      have hlength : (pre ++ [att]).length = pre.length + 1 := by simp
      rw [← hlength]
      refine ih (by simp [hdesc]) (hsorted.sublist (List.dropWhile_sublist _)) fun target h => ?_
      have hlt := hlater target h
      have hle := (hrange target ((List.dropWhile_sublist _).subset h)).2
      rw [List.length_cons] at hle
      rw [hlength]
      omega
    have hhere : t.writesAt dn att pre.length (t.offsetBehind pre 0 0)
        (targets.takeWhile (·.attIndex = pre.length)) =
        (targets.takeWhile (·.attIndex = pre.length)).map (writeFor dn t desc) := by
      apply List.map_congr_left
      intro target htarget
      have hat : target.attIndex = pre.length := by
        simpa using List.mem_takeWhile_imp htarget
      rw [writeFor, hat, hatt, Option.bind_some, HeapTuple.startOf, htake]
    rw [HeapTuple.deformLoop, hnext, hrest, hhere, ← List.map_append,
      List.takeWhile_append_dropWhile]

/-- **The writes of the deformer**, target by target. -/
theorem deform_eq {program : DeformProgram}
    (hlt : ∀ target ∈ program.targets, target.attIndex < desc.length) :
    t.deform dn desc program = program.targets.map (writeFor dn t desc) := by
  refine @deformLoop_eq dn t desc [] (program.walked desc)
    (desc.drop ((program.targets.getLast?.map fun target => target.attIndex + 1).getD 0))
    (List.take_append_drop _ _).symm program.targets program.sorted fun target htarget => ?_
  have hlast := lt_last_iff.2 ⟨target, htarget, le_rfl⟩
  have hdesc := hlt target htarget
  have hlength : (program.walked desc).length =
      min ((program.targets.getLast?.map fun target => target.attIndex + 1).getD 0) desc.length :=
    List.length_take
  rw [hlength, List.length_nil]
  omega

end Walk

/-! ## Slots -/

/-- What is put into a slot. -/
inductive Content
  | null
  | int32 (v : Int32)
  | int64 (v : Int64)
  | string (bytes : List UInt8)

/-- A reference to bytes: short ones are in it, others in the arena. -/
def Refers (arena : List UInt8) (ref : VecStringRef) (bytes : List UInt8) : Prop :=
  ∃ n, ref = storedRef bytes n ∧ (8 < bytes.length → (arena.drop n).take bytes.length = bytes)

/-- A slot has a content. -/
def Has (chunk : FilterChunk) (slot : Nat) : Content → Prop
  | .null => chunk.nulls slot 0 = true
  | .int32 v => chunk.nulls slot 0 = false ∧ chunk.int32 slot 0 = v
  | .int64 v => chunk.nulls slot 0 = false ∧ chunk.int64 slot 0 = v
  | .string bytes => chunk.nulls slot 0 = false ∧ Refers chunk.arena (chunk.string slot 0) bytes

/-- What a write puts into a slot of an array, which had `old` in it. -/
inductive Stores (array : ScratchArray) (old : Int64) :
    Option (Except String Datum) → Content → Prop
  | null : Stores array old none .null
  | int32 (v : Int32) : array = .int32 → Stores array old (some (.ok (.int32 v))) (.int32 v)
  | promoted (v : Int32) : array = .int64 →
    Stores array old (some (.ok (.int32 v))) (.int64 (storeInt32 old v))
  | int64 (v : Int64) : array = .int64 → Stores array old (some (.ok (.int64 v))) (.int64 v)
  | string (bytes : List UInt8) : array = .string → bytes.length ≤ 65536 →
    Stores array old (some (.ok (.stringRef bytes))) (.string bytes)

/-- All other slots are as they were. -/
structure Elsewhere (chunk chunk' : FilterChunk) (slot : Nat) : Prop where
  int64 : ∀ j, j ≠ slot → chunk'.int64 j 0 = chunk.int64 j 0
  has : ∀ j, j ≠ slot → ∀ content, Has chunk j content → Has chunk' j content

section Slots

variable {chunk chunk' : FilterChunk} {slot : Nat}

/-- The arena only grows. -/
theorem Refers.append {arena more bytes : List UInt8} {ref : VecStringRef}
    (h : Refers arena ref bytes) : Refers (arena ++ more) ref bytes := by
  obtain ⟨n, href, hdata⟩ := h
  refine ⟨n, href, fun hlong => ?_⟩
  have hbytes := hdata hlong
  have hlength := congrArg List.length hbytes
  rw [List.length_take, List.length_drop] at hlength
  rw [List.drop_append_of_le_length (by omega), List.take_append_of_le_length, hbytes]
  rw [List.length_drop]
  omega

/-- Flags, integers and references of another slot that stay. -/
theorem elsewhere_of_same (hnulls : ∀ j, j ≠ slot → chunk'.nulls j = chunk.nulls j)
    (hint32 : ∀ j, j ≠ slot → chunk'.int32 j = chunk.int32 j)
    (hint64 : ∀ j, j ≠ slot → chunk'.int64 j = chunk.int64 j)
    (hstring : ∀ j, j ≠ slot → chunk'.string j = chunk.string j)
    (harena : ∃ more, chunk'.arena = chunk.arena ++ more) : Elsewhere chunk chunk' slot := by
  refine ⟨fun j hj => by rw [hint64 j hj], fun j hj content h => ?_⟩
  cases content with
  | null =>
    show chunk'.nulls j 0 = true
    rw [hnulls j hj]
    exact h
  | int32 v => exact ⟨by rw [hnulls j hj]; exact h.1, by rw [hint32 j hj]; exact h.2⟩
  | int64 v => exact ⟨by rw [hnulls j hj]; exact h.1, by rw [hint64 j hj]; exact h.2⟩
  | string bytes =>
    obtain ⟨more, hmore⟩ := harena
    refine ⟨by rw [hnulls j hj]; exact h.1, ?_⟩
    rw [hstring j hj, hmore]
    exact h.2.append

/-- One write: its slot has the content, the others stay. -/
theorem storeWrite_ok {bindings : List ScratchArray} {w : Write} {content : Content}
    (h : Stores (bindings.getD w.dstCol .int32) (chunk.int64 w.dstCol 0) w.cell content) :
    ∃ chunk', storeWrite bindings chunk w = .ok chunk' ∧ Has chunk' w.dstCol content ∧
      Elsewhere chunk chunk' w.dstCol := by
  obtain ⟨slot, cell⟩ := w
  dsimp only at h ⊢
  have hflag : ∀ b j, j ≠ slot → setFirst chunk.nulls slot b j = chunk.nulls j :=
    fun b j hj => setFirst_of_ne _ _ hj
  generalize harray : bindings.getD slot .int32 = array at h
  cases h with
  | null =>
    exact ⟨_, rfl, setFirst_self _ _ _, elsewhere_of_same (hflag _) (fun _ _ => rfl)
      (fun _ _ => rfl) (fun _ _ => rfl) ⟨[], (List.append_nil _).symm⟩⟩
  | int32 v heq =>
    subst heq
    refine ⟨{ chunk with
      nulls := setFirst chunk.nulls slot false, int32 := setFirst chunk.int32 slot v }, ?_,
      ⟨setFirst_self _ _ _, setFirst_self _ _ _⟩, elsewhere_of_same (hflag _)
        (fun j hj => setFirst_of_ne _ _ hj) (fun _ _ => rfl) (fun _ _ => rfl)
        ⟨[], (List.append_nil _).symm⟩⟩
    rw [storeWrite]
    dsimp only
    rw [harray]
    rfl
  | promoted v heq =>
    subst heq
    refine ⟨{ chunk with
      nulls := setFirst chunk.nulls slot false
      int64 := setFirst chunk.int64 slot (storeInt32 (chunk.int64 slot 0) v) }, ?_,
      ⟨setFirst_self _ _ _, setFirst_self _ _ _⟩, elsewhere_of_same (hflag _) (fun _ _ => rfl)
        (fun j hj => setFirst_of_ne _ _ hj) (fun _ _ => rfl) ⟨[], (List.append_nil _).symm⟩⟩
    rw [storeWrite]
    dsimp only
    rw [harray]
    rfl
  | int64 v heq =>
    subst heq
    refine ⟨{ chunk with
      nulls := setFirst chunk.nulls slot false, int64 := setFirst chunk.int64 slot v }, ?_,
      ⟨setFirst_self _ _ _, setFirst_self _ _ _⟩, elsewhere_of_same (hflag _) (fun _ _ => rfl)
        (fun j hj => setFirst_of_ne _ _ hj) (fun _ _ => rfl) ⟨[], (List.append_nil _).symm⟩⟩
    rw [storeWrite]
    dsimp only
    rw [harray]
    rfl
  | string bytes heq hle =>
    subst heq
    refine ⟨{ chunk with
      nulls := setFirst chunk.nulls slot false
      string := setFirst chunk.string slot (storedRef bytes chunk.arena.length)
      arena := if bytes.length ≤ 8 then chunk.arena else chunk.arena ++ bytes }, ?_,
      ⟨setFirst_self _ _ _, chunk.arena.length, setFirst_self _ _ _, fun hlong => ?_⟩,
      elsewhere_of_same (hflag _) (fun _ _ => rfl) (fun _ _ => rfl)
        (fun j hj => setFirst_of_ne _ _ hj) ?_⟩
    · rw [storeWrite]
      dsimp only
      rw [harray, store, FilterChunk.put, if_neg (Nat.not_lt.2 hle)]
      all_goals intros
      all_goals contradiction
    · rw [if_neg (Nat.not_le.2 hlong), List.drop_left, List.take_length]
    · by_cases hshort : bytes.length ≤ 8
      · exact ⟨[], by rw [if_pos hshort, List.append_nil]⟩
      · exact ⟨bytes, if_neg hshort⟩

/-- A write has one content. -/
theorem Stores.unique {array : ScratchArray} {old : Int64} {cell : Option (Except String Datum)}
    {content content' : Content} (h : Stores array old cell content)
    (h' : Stores array old cell content') : content = content' := by
  cases h with
  | null => cases h'; rfl
  | int32 v harray =>
    cases h' with
    | int32 _ _ => rfl
    | promoted _ hother => rw [harray] at hother; cases hother
  | promoted v harray =>
    cases h' with
    | int32 _ hother => rw [harray] at hother; cases hother
    | promoted _ _ => rfl
  | int64 v _ => cases h'; rfl
  | string bytes _ _ => cases h'; rfl

/-- **Writes into different slots**: each slot has what was written into it. -/
theorem foldlM_storeWrite {bindings : List ScratchArray} {writes : List Write}
    (hnodup : (writes.map Write.dstCol).Nodup)
    (h : ∀ w ∈ writes, ∃ content,
      Stores (bindings.getD w.dstCol .int32) (chunk.int64 w.dstCol 0) w.cell content) :
    ∃ chunk', writes.foldlM (storeWrite bindings) chunk = .ok chunk' ∧
      (∀ w ∈ writes, ∃ content,
        Stores (bindings.getD w.dstCol .int32) (chunk.int64 w.dstCol 0) w.cell content ∧
          Has chunk' w.dstCol content) ∧
      ∀ j, j ∉ writes.map Write.dstCol → ∀ c, Has chunk j c → Has chunk' j c := by
  induction writes generalizing chunk with
  | nil => exact ⟨chunk, rfl, (fun w hw => nomatch hw), fun j _ c hc => hc⟩
  | cons w writes ih =>
    rw [List.map_cons, List.nodup_cons] at hnodup
    obtain ⟨content, hcontent⟩ := h w List.mem_cons_self
    obtain ⟨mid, hmid, hhas, helse⟩ := storeWrite_ok hcontent
    have hne : ∀ w' ∈ writes, w'.dstCol ≠ w.dstCol := fun w' hw' heq =>
      hnodup.1 (heq ▸ List.mem_map_of_mem hw')
    obtain ⟨last, hlast, hrest, hkept⟩ := @ih mid hnodup.2 fun w' hw' => by
      rw [helse.int64 _ (hne w' hw')]
      exact h w' (List.mem_cons_of_mem _ hw')
    refine ⟨last, ?_, ?_, ?_⟩
    · rw [List.foldlM_cons, hmid]
      exact hlast
    · intro w' hw'
      rcases List.mem_cons.1 hw' with rfl | hw'
      · exact ⟨content, hcontent, hkept _ hnodup.1 _ hhas⟩
      · have hlater := hrest w' hw'
        rwa [helse.int64 _ (hne w' hw')] at hlater
    · intro j hj c hc
      rw [List.map_cons, List.mem_cons, not_or] at hj
      exact hkept j hj.2 c (helse.has j hj.1 c hc)

/-- An error ends the deformer. -/
theorem not_error_of_foldlM {bindings : List ScratchArray} {writes : List Write}
    (h : writes.foldlM (storeWrite bindings) chunk = .ok chunk') :
    ∀ w ∈ writes, ∀ e, w.cell ≠ some (.error e) := by
  induction writes generalizing chunk with
  | nil => exact fun w hw => nomatch hw
  | cons w writes ih =>
    rw [List.foldlM_cons] at h
    intro w' hw' e he
    cases hstore : storeWrite bindings chunk w with
    | error e' =>
      rw [hstore] at h
      cases h
    | ok mid =>
      rw [hstore] at h
      rcases List.mem_cons.1 hw' with rfl | hw'
      · rw [storeWrite, he] at hstore
        cases hstore
      · exact ih h w' hw' e he

/-- The bytes behind a pointer to a list. -/
theorem read_pointerTo {bytes : List UInt8} {start n : Nat} (h : start + n ≤ bytes.length) :
    (pointerTo bytes).read start n = (bytes.drop start).take n := by
  induction n generalizing start with
  | zero => rw [List.take_zero]; rfl
  | succ n ih =>
    have hlt : start < bytes.length := by omega
    rw [ByteMemory.read, ih (by omega), List.drop_eq_getElem_cons hlt, List.take_succ_cons,
      pointerTo, List.getD_eq_getElem _ _ hlt]

/-- A slot with a reference to bytes reads as these bytes. -/
theorem readsString_iff {bytes bytes' : List UInt8}
    (h : Refers chunk.arena (chunk.string slot 0) bytes) :
    ReadsString chunk slot bytes' ↔ bytes' = bytes := by
  obtain ⟨n, href, hdata⟩ := h
  have hlen : (chunk.string slot 0).len = bytes.length := by rw [href]; rfl
  have hreads : ReadsString chunk slot bytes := by
    refine ⟨hlen, ?_⟩
    rw [FilterChunk.stringPtr, dataPtr, href]
    by_cases hempty : bytes = []
    · subst hempty
      exact ⟨_, rfl, rfl⟩
    · have hpos : 0 < bytes.length := List.length_pos_iff.2 hempty
      rw [if_neg (show ¬ (storedRef bytes n).len = 0 from hpos.ne')]
      by_cases hshort : bytes.length ≤ 8
      · have hinline : (storedRef bytes n).isInline = true := by
          simp [VecStringRef.isInline, storedRef, hempty, hshort, hpos]
        rw [if_pos hinline]
        refine ⟨_, rfl, ?_⟩
        show (pointerTo (stringPrefix bytes)).read 0 bytes.length = bytes
        rw [read_pointerTo (by simp [stringPrefix]; omega), List.drop_zero, stringPrefix,
          List.take_of_length_le hshort, List.take_left]
      · have hlong : 8 < bytes.length := Nat.lt_of_not_le hshort
        have hinline : ¬ (storedRef bytes n).isInline = true := by
          simp [VecStringRef.isInline, storedRef, hshort]
        have hbytes := hdata hlong
        have hlength := congrArg List.length hbytes
        rw [List.length_take, List.length_drop] at hlength
        have harena : chunk.arena ≠ [] := by
          intro harena
          rw [harena, List.length_nil] at hlength
          omega
        rw [if_neg hinline, if_neg harena]
        refine ⟨_, rfl, ?_⟩
        have hoffset : (storedRef bytes n).offset = n := by
          rw [storedRef, if_neg hempty, if_neg hshort]
        rw [hoffset]
        have hshift : ByteMemory.read (fun i => pointerTo chunk.arena (n + i)) 0 bytes.length =
            (pointerTo chunk.arena).read n bytes.length :=
          ByteMemory.read_eq_read fun i _ => by rw [Nat.zero_add]
        rw [hshift, read_pointerTo (by omega), hbytes]
  constructor
  · rintro ⟨hlen', m', hm', hread'⟩
    obtain ⟨-, m, hm, hread⟩ := hreads
    obtain rfl := Option.some.inj (hm.symm.trans hm')
    rw [← hread', ← hlen', hlen, hread]
  · rintro rfl
    exact hreads

end Slots

end FilterScratch
end PgYaap
