import PgYaap.FilterScratchValues

/-! # The compiled deformer

`compile_deform_to_datachunk` unrolls the walk of the deformer over a descriptor: a block of code
for each attribute up to the last target, with the length, the alignment and the target of the
attribute in it. The blocks look at the number of attributes of the tuple, which the interpreter
does not, have one target each, read the length of a `varlena` by its first byte where that is
odd, and read numerics with helpers of their own. -/
namespace PgYaap
namespace JitDeform

open HeapTuples FilterScratch StoredNumeric NumericColumns

/-! ## Descriptors that are compiled -/

/-- An attribute with what the code generator reads of it besides: whether it is dropped, and
whether its `attnullability` is `ATTNULLABLE_VALID`. -/
structure JitAttribute extends CompactAttribute where
  attisdropped : Bool
  attnullabilityValid : Bool

/-- The descriptor of the interpreter. -/
def compactDesc (desc : List JitAttribute) : List CompactAttribute :=
  desc.map JitAttribute.toCompactAttribute

/-- `kMaxDeformTargets`. -/
def kMaxDeformTargets : Nat := 16

/-- The check of a target. Targets are sorted by their type, and no column is a `cstring`. -/
def supportedTarget (desc : List JitAttribute) (target : DeformTarget) : Except String Unit :=
  if kMaxDeformTargets ≤ target.attIndex ∨ kMaxDeformTargets ≤ target.dstCol then
    .error "deform target exceeds fixed column limit"
  else if (desc[target.attIndex]?).any (·.attisdropped) then
    .error "dropped attributes are not supported by deform JIT"
  else .ok ()

/-- `pg_yaap_jit_deform_supported`, with the reason of a refusal, which a program without targets
has not. -/
def pgYaapJitDeformSupported (desc : List JitAttribute) (program : DeformProgram) :
    Except (Option String) Unit :=
  match program.targets.getLast? with
  | none => .error none
  | some last =>
    if desc.length ≤ last.attIndex then
      .error (some "deform program references attribute outside tuple descriptor")
    else (program.targets.forM (supportedTarget desc)).mapError some

/-! ## The store helpers -/

/-- An operation on `int64_t`. -/
def narrow (x : Int) : Int := x.bmod (2 ^ 64)

/-- `pg_yaap_jit_store_numeric_int64_fast`: the digits in place, at `DEFAULT_NUMERIC_SCALE`. -/
def storeNumericInt64Fast (bytes : List UInt8) : Except String Int :=
  (tryFastNumericToScaledInt64 (numericDatum (vardataAny bytes)) 2).elim
    (.error "pg_yaap fast numeric decode failed inside deform JIT helper") .ok

/-- The blocks `decode_init` to `store` of the helper for scale two; `none` stands for
`fallback`. -/
def scale2Digits (n : NumericDatum) : Option Int :=
  let accum := (List.range (n.weight + 1).toNat).foldl
    (fun accum i => narrow (narrow (accum * 10000) + n.digit i)) 0
  let fracIndex := n.weight + 1
  let fracDigit := if 0 ≤ fracIndex then n.digit fracIndex.toNat else 0
  let accum := narrow (narrow (accum * 100) + fracDigit.tdiv 100)
  if fracDigit.tmod 100 ≠ 0 then none
  else if ∃ i < n.digits.length, fracIndex + 1 ≤ (i : Int) ∧ n.digit i ≠ 0 then none
  else some (if n.negative then narrow (-accum) else accum)

/-- `build_numeric_scale2_fast_store_helper`: out-of-line and compressed values, special ones,
lengths that are none of a numeric and more than two decimals go the other way. -/
def numericScale2FastStore (bytes : List UInt8) : Except String Int :=
  let payload := vardataAny bytes
  let n := numericDatum payload
  if isToasted bytes ∨ n.isSpecial ∨ payload.length < 2 * numericHeaderWords payload ∨
      payload.length % 2 = 1 ∨ 2 < n.dscale then
    storeNumericInt64Fast bytes
  else (scale2Digits n).elim (storeNumericInt64Fast bytes) .ok

/-- The call for a numeric: which helper, by the scale of the column. -/
def storeNumeric (typmod : Int) (bytes : List UInt8) : Except String Int :=
  if getNumericScaleFromTypmod typmod = 2 then numericScale2FastStore bytes
  else storeNumericInt64Fast bytes

/-- `pg_yaap_jit_store_bpchar1_int32`: a value without data is a zero. -/
def storeBpchar1Int32 (t : HeapTuple) (start : Nat) : Int32 :=
  if varHeader (t.data start) < t.varsizeAny start then
    Int32.ofNat (t.data (start + varHeader (t.data start))).toNat
  else 0

/-- `store_target_notnull`: what is stored of an attribute that starts at an offset. -/
def storeTargetNotnull (t : HeapTuple) (kind : HeapColumns.DeformDecodeKind) (typmod : Int)
    (start : Nat) : Except String Datum :=
  match kind with
  | .int32 | .date32 =>
    .ok (.int32 (UInt32.ofNat (ByteMemory.decode (t.bytesAt start 4))).toInt32)
  | .int64 => .ok (.int64 (UInt64.ofNat (ByteMemory.decode (t.bytesAt start 8))).toInt64)
  | .float8 => .ok (.double (UInt64.ofNat (ByteMemory.decode (t.bytesAt start 8))))
  | .bpchar1 => .ok (.int32 (storeBpchar1Int32 t start))
  | .numeric => (storeNumeric typmod (t.bytesAt start (t.varsizeAny start))).map
      fun scaled => .int64 (Int64.ofInt scaled)
  | .stringRef => HeapColumns.storeStringBytes (vardataAny (t.bytesAt start (t.varsizeAny start)))

/-! ## The code -/

/-- The alignment that is generated: none, the nominal one, or that unless there is a short
header. -/
inductive AttAlign
  | unaligned
  | nominal (alignby : Nat)
  | unlessShort (alignby : Nat)

/-- The blocks of an attribute, `att.%d.check` to `att.%d.unavail`: the constants in them, the
target that is stored and the targets that are NULL where the tuple has not so many
attributes. -/
structure AttBlock where
  attIndex : Nat
  checksNull : Bool
  align : AttAlign
  attlen : Option Nat
  atttypmod : Int
  target : Option DeformTarget
  unavail : List DeformTarget

/-- The alignment of an attribute. -/
def alignOf (att : CompactAttribute) : AttAlign :=
  if 1 < att.attalignby then
    if att.attlen = none then .unlessShort att.attalignby else .nominal att.attalignby
  else .unaligned

/-- Whether the next target is of an attribute. -/
def isTarget (targets : List DeformTarget) (attIndex : Nat) : Bool :=
  targets.head?.any (·.attIndex = attIndex)

/-- The loop over the attributes, with the targets from `target_idx` on. -/
def compileFrom : List JitAttribute → (attIndex : Nat) → List DeformTarget → List AttBlock
  | [], _, _ => []
  | att :: atts, attIndex, targets =>
    { attIndex := attIndex
      checksNull := !att.attnullabilityValid
      align := alignOf att.toCompactAttribute
      attlen := att.attlen
      atttypmod := att.atttypmod
      target := if isTarget targets attIndex then targets.head? else none
      unavail := targets } ::
        compileFrom atts (attIndex + 1) (if isTarget targets attIndex then targets.tail else targets)

/-- How many attributes are walked over. -/
def walkedLength (program : DeformProgram) : Nat :=
  (program.targets.getLast?.map fun target => target.attIndex + 1).getD 0

/-- `compile_deform_to_datachunk`. -/
def compileDeformToDatachunk (desc : List JitAttribute) (program : DeformProgram) :
    List AttBlock :=
  compileFrom (desc.take (walkedLength program)) 0 program.targets

section Run

variable (t : HeapTuple)

/-- The block `att.%d.align`. -/
def AttAlign.apply (align : AttAlign) (off : Nat) : Nat :=
  match align with
  | .unaligned => off
  | .nominal alignby => attNominalAlignby off alignby
  | .unlessShort alignby => if t.data off = 0 then attNominalAlignby off alignby else off

/-- How far the offset is moved behind an attribute: of a `varlena` with an odd first byte half
of that byte. -/
def AttBlock.incby (block : AttBlock) (start : Nat) : Nat :=
  match block.attlen with
  | some len => len
  | none =>
    if (t.data start).toNat % 2 = 1 then (t.data start).toNat / 2 else t.varsizeAny start

/-- What the generated function writes. An error ends it; what would be written behind it is
listed all the same. -/
def run : List AttBlock → (off : Nat) → List Write
  | [], _ => []
  | block :: blocks, off =>
    if t.natts ≤ block.attIndex then block.unavail.map fun target => ⟨target.dstCol, none⟩
    else if block.checksNull && t.isnull block.attIndex then
      block.target.toList.map (fun target => ⟨target.dstCol, none⟩) ++ run blocks off
    else
      let start := block.align.apply t off
      block.target.toList.map (fun target => ⟨target.dstCol,
        some (storeTargetNotnull t target.decodeKind block.atttypmod start)⟩) ++
          run blocks (start + block.incby t start)

end Run

/-! ## What is asked for -/

/-- What is in the row behind the writes of a walk, target by target, or its error. -/
def outcome (writes : List Write) : Except String (List (Nat × Option Datum)) :=
  writes.mapM fun w =>
    (w.cell.elim (.ok none) fun decoded => decoded.map some).map fun cell => (w.dstCol, cell)

/-- **The generated function does what the interpreter does**: the same values and flags, target
by target, and no error where the interpreter has none. -/
def JitAgrees (detoast : List UInt8 → List UInt8) (desc : List JitAttribute)
    (program : DeformProgram) (t : HeapTuple) : Prop :=
  ∀ cells, outcome (t.deform (decodeNumeric detoast) (compactDesc desc) program) = .ok cells →
    outcome (run t (compileDeformToDatachunk desc program) 0) = .ok cells

/-- What is promised of the tuples of a relation: they are formed by `heap_form_tuple`, a column
with a valid NOT NULL constraint has no NULL, and numerics are as they are stored. -/
structure TupleOf (detoast : List UInt8 → List UInt8) (desc : List JitAttribute)
    (program : DeformProgram) (t : HeapTuple) : Prop where
  wellFormed : WellFormed t (compactDesc desc)
  notNull : ∀ (k : Nat) (att : JitAttribute), desc[k]? = some att → att.attnullabilityValid = true →
    k < t.natts → t.isnull k = false
  numeric : ∀ target ∈ program.targets, target.decodeKind = .numeric →
    ∀ att, desc[target.attIndex]? = some att → target.attIndex < t.natts →
    t.isnull target.attIndex = false →
    ∀ bytes, bytes = t.bytesAt (t.startOf (compactDesc desc) att.toCompactAttribute target.attIndex)
      (t.varsizeAny (t.startOf (compactDesc desc) att.toCompactAttribute target.attIndex)) →
    (numericAttribute detoast bytes).stored.isSpecial = false →
      (numericAttribute detoast bytes).stored.WellFormed

/-! ## Where the two agree -/

/-- **No out-of-line value in front of another target.** -/
def InLine (desc : List JitAttribute) (program : DeformProgram) (t : HeapTuple) : Prop :=
  ∀ (k : Nat) (att : JitAttribute), k + 1 < walkedLength program → k < t.natts →
    desc[k]? = some att → t.isnull k = false → att.attlen = none →
      t.data (t.startOf (compactDesc desc) att.toCompactAttribute k) ≠ 1

/-- A numeric that the interpreter raises an error on: the digits are not read, and it is NaN or
infinite, or its rounded hundredfold is out of range. -/
def NumericRaises (typmod : Int) (a : NumericAttribute) : Prop :=
  tryFastNumericToScaledInt64 a.inPlace (getNumericScaleFromTypmod typmod) = none ∧
    (a.stored.isSpecial = true ∨ ¬ FitsInt64 (roundHalfAwayFromZero (a.stored.value * 100)))

/-- **Numerics that both read alike.** In place: there are at most two decimals, and where the
digits are read at the scale of the column, the hundredfold is the scaled value (or differs from
it by a multiple of `2 ^ 128`). Otherwise the bytes in place pass for the same number. -/
def NumericAgrees (typmod : Int) : NumericAttribute → Prop
  | .inline n => n.dscale ≤ 2 ∧
      (tryFastNumericToScaledInt64 n (getNumericScaleFromTypmod typmod) ≠ none →
        ∃ k : Int, n.value * (10 ^ getNumericScaleFromTypmod typmod - 100) = k * 2 ^ 128)
  | .toasted inPlace n =>
    match tryFastNumericToScaledInt64 inPlace (getNumericScaleFromTypmod typmod) with
    | some scaled => tryFastNumericToScaledInt64 inPlace 2 = some scaled
    | none => tryFastNumericToScaledInt64 inPlace 2 = some (roundHalfAwayFromZero (n.value * 100))

section Conditions

variable (detoast : List UInt8 → List UInt8) (desc : List JitAttribute) (t : HeapTuple)

/-- A target that the interpreter raises an error on. -/
def Raises (target : DeformTarget) : Prop :=
  t.isnull target.attIndex = false ∧ ∃ att, desc[target.attIndex]? = some att ∧
    let start := t.startOf (compactDesc desc) att.toCompactAttribute target.attIndex
    let bytes := t.bytesAt start (t.varsizeAny start)
    match target.decodeKind with
    | .numeric => NumericRaises att.atttypmod (numericAttribute detoast bytes)
    | .stringRef => 65536 < (vardataAny bytes).length
    | _ => False

/-- An attribute that both decode alike: the numerics above, and of a `char(1)` those that have a
byte, or a zero behind the header. -/
def KindAgrees (kind : HeapColumns.DeformDecodeKind) (typmod : Int) (start : Nat) : Prop :=
  match kind with
  | .numeric => NumericAgrees typmod
      (numericAttribute detoast (t.bytesAt start (t.varsizeAny start)))
  | .bpchar1 => varHeader (t.data start) < t.varsizeAny start ∨
      t.data (start + varHeader (t.data start)) = 0
  | _ => True

/-- **A target that both fill alike**: it is NULL for the interpreter too if the tuple has not so
many attributes, and otherwise NULL or decoded alike. -/
def TargetAgrees (target : DeformTarget) : Prop :=
  t.isnull target.attIndex = false → target.attIndex < t.natts ∧
    ∀ att, desc[target.attIndex]? = some att →
      KindAgrees detoast t target.decodeKind att.atttypmod
        (t.startOf (compactDesc desc) att.toCompactAttribute target.attIndex)

end Conditions

/-- The targets up to the first that reads the attribute of the one before it. -/
def firstOfEach : List DeformTarget → List DeformTarget
  | [] => []
  | [target] => [target]
  | target :: next :: targets =>
    if next.attIndex = target.attIndex then [target] else target :: firstOfEach (next :: targets)

/-- The targets from there on, which have no code of their own. -/
def repeated (targets : List DeformTarget) : List DeformTarget :=
  targets.drop (firstOfEach targets).length

/-- **When the generated function does what the interpreter does**: the interpreter raises an
error; or every target that has code is filled alike, and those that have none are NULL, in a
tuple with fewer attributes than are walked over. -/
def JitFits (detoast : List UInt8 → List UInt8) (desc : List JitAttribute)
    (program : DeformProgram) (t : HeapTuple) : Prop :=
  (∃ target ∈ program.targets, Raises detoast desc t target) ∨
    (∀ target ∈ firstOfEach program.targets, TargetAgrees detoast desc t target) ∧
      (repeated program.targets = [] ∨ t.natts < walkedLength program ∧
        ∀ target ∈ repeated program.targets, t.isnull target.attIndex = true)

end JitDeform
end PgYaap
