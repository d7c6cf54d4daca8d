import PgYaap.HeapColumns

/-! # Heap tuples under the deformer

A heap tuple has a header with its number of attributes and a null bitmap, and behind it the
attributes that are not NULL, each at its alignment. The deformer walks over the attributes of
the descriptor, up to the last one it is asked for, with a running offset. It does not look how
many attributes the tuple has. -/
namespace PgYaap
namespace HeapTuples

open HashJoinProbe HeapColumns

/-! ## Tuples -/

/-- `CompactAttribute`, with the type modifier and the missing value of the attribute. No length
stands for -1, a `varlena`; a `cstring` is no column. -/
structure CompactAttribute where
  attlen : Option Nat
  attalignby : Nat
  atttypmod : Int
  missing : Option (List UInt8)

/-- A tuple of `len` bytes, from its header on; what lies behind it is kept too. -/
structure HeapTuple where
  natts : Nat
  hasNulls : Bool
  hoff : Nat
  len : Nat
  bytes : ByteMemory

/-- The length of the header of a `varlena`, by its first byte: a pointer with a tag, a short
one, one of four bytes. -/
def varHeader (first : UInt8) : Nat :=
  if first = 1 then 2 else if first.toNat % 2 = 1 then 1 else 4

/-- `att_nominal_alignby`. -/
def attNominalAlignby (off alignby : Nat) : Nat := (off + alignby - 1) / alignby * alignby

namespace HeapTuple

variable (t : HeapTuple)

/-- `tp[off]`. -/
def data (off : Nat) : UInt8 := t.bytes (t.hoff + off)

/-- `offsetof(HeapTupleHeaderData, t_bits)`. -/
def bitsOffset : Nat := 23

/-- `att_isnull`, where there is a bitmap. -/
def isnull (attnum : Nat) : Bool :=
  t.hasNulls && !(t.bytes (bitsOffset + attnum / 8)).toNat.testBit (attnum % 8)

/-- `VARSIZE_ANY`. -/
def varsizeAny (off : Nat) : Nat :=
  if t.data off = 1 then 2 + if t.data (off + 1) = 18 then 16 else 8
  else if (t.data off).toNat % 2 = 1 then (t.data off).toNat / 2
  else ByteMemory.decode (t.bytes.read (t.hoff + off) 4) / 4

/-- Where an attribute starts: `att_pointer_alignby` or `att_nominal_alignby`. A byte that is
not zero is the short header of a `varlena`. -/
def alignAtt (att : CompactAttribute) (off : Nat) : Nat :=
  if att.attlen = none ∧ t.data off ≠ 0 then off else attNominalAlignby off att.attalignby

/-- The length of an attribute. -/
def size (att : CompactAttribute) (off : Nat) : Nat := att.attlen.getD (t.varsizeAny off)

/-- The bytes at an offset. -/
def bytesAt (off n : Nat) : List UInt8 := t.bytes.read (t.hoff + off) n

/-- The offset behind some attributes. -/
def offsetBehind : List CompactAttribute → (attnum off : Nat) → Nat
  | [], _, off => off
  | att :: atts, attnum, off =>
    if t.isnull attnum then offsetBehind atts (attnum + 1) off
    else offsetBehind atts (attnum + 1) (t.alignAtt att off + t.size att (t.alignAtt att off))

/-- Where `nocachegetattr` finds an attribute. -/
def startOf (desc : List CompactAttribute) (att : CompactAttribute) (attnum : Nat) : Nat :=
  t.alignAtt att (t.offsetBehind (desc.take attnum) 0 0)

/-- `heap_getattr`: the bytes of an attribute, `none` for NULL. Past the attributes of the tuple
it is the missing value of the descriptor. -/
def heapGetattr (desc : List CompactAttribute) (attnum : Nat) : Option (List UInt8) :=
  desc[attnum]?.bind fun att =>
    if t.natts ≤ attnum then att.missing
    else if t.isnull attnum then none
    else some (t.bytesAt (t.startOf desc att attnum) (t.size att (t.startOf desc att attnum)))

end HeapTuple

/-! ## The deformer -/

/-- `DeformTarget`. -/
structure DeformTarget where
  attIndex : Nat
  dstCol : Nat
  decodeKind : DeformDecodeKind

/-- `VARDATA_ANY`. -/
def vardataAny (bytes : List UInt8) : List UInt8 := bytes.drop (varHeader (bytes.headD 0))

section Deform

variable (decodeNumeric : Int → List UInt8 → Except String Datum)

/-- What the switch over the decode kinds makes of the bytes of an attribute; of a compressed one
it takes the bytes there are. -/
def fetch (kind : DeformDecodeKind) (typmod : Int) (bytes : List UInt8) : Except String Datum :=
  match kind with
  | .int32 | .date32 => .ok (.int32 (UInt32.ofNat (ByteMemory.decode bytes)).toInt32)
  | .int64 => .ok (.int64 (UInt64.ofNat (ByteMemory.decode bytes)).toInt64)
  | .float8 => .ok (.double (UInt64.ofNat (ByteMemory.decode bytes)))
  | .bpchar1 => .ok (.int32 (Int32.ofNat ((vardataAny bytes).headD 0).toNat))
  | .stringRef => storeStringBytes (vardataAny bytes)
  | .numeric => decodeNumeric typmod bytes

/-- How many bytes the switch reads at an attribute. -/
def HeapTuple.width (t : HeapTuple) (kind : DeformDecodeKind) (off : Nat) : Nat :=
  match kind with
  | .int32 | .date32 => 4
  | .int64 | .float8 => 8
  | .bpchar1 => varHeader (t.data off) + 1
  | .stringRef | .numeric => t.varsizeAny off

/-- What is written for a target: NULL, or a value or an error. -/
structure Write where
  dstCol : Nat
  cell : Option (Except String Datum)

/-- The targets at an attribute, and what is written for them. -/
def HeapTuple.writesAt (t : HeapTuple) (att : CompactAttribute) (attnum off : Nat)
    (targets : List DeformTarget) : List Write :=
  targets.map fun target => ⟨target.dstCol, if t.isnull attnum then none else
    some (fetch decodeNumeric target.decodeKind att.atttypmod
      (t.bytesAt (t.alignAtt att off) (t.width target.decodeKind (t.alignAtt att off))))⟩

/-- The offset behind an attribute. -/
def HeapTuple.next (t : HeapTuple) (att : CompactAttribute) (attnum off : Nat) : Nat :=
  if t.isnull attnum then off else t.alignAtt att off + t.size att (t.alignAtt att off)

/-- The loop of `DataChunkDeformer::deform_tuple_header`. An error ends it; what would be written
behind it is listed all the same. -/
def HeapTuple.deformLoop (t : HeapTuple) :
    List CompactAttribute → (attnum off : Nat) → List DeformTarget → List Write
  | [], _, _, _ => []
  | att :: atts, attnum, off, targets =>
    t.writesAt decodeNumeric att attnum off (targets.takeWhile (·.attIndex = attnum)) ++
      t.deformLoop atts (attnum + 1) (t.next att attnum off)
        (targets.dropWhile (·.attIndex = attnum))

/-- The reads at an attribute, each by its first byte and its length: the bitmap, the byte that
may be a pad, what the targets take, the header of a `varlena`. -/
def HeapTuple.readsAt (t : HeapTuple) (att : CompactAttribute) (attnum off : Nat)
    (targets : List DeformTarget) : List (Nat × Nat) :=
  (if t.hasNulls then [(HeapTuple.bitsOffset + attnum / 8, 1)] else []) ++
    if t.isnull attnum then []
    else
      (if att.attlen = none then
        [(t.hoff + off, 1), (t.hoff + t.alignAtt att off, varHeader (t.data (t.alignAtt att off)))]
      else []) ++
        targets.map fun target =>
          (t.hoff + t.alignAtt att off, t.width target.decodeKind (t.alignAtt att off))

/-- The reads of the loop. -/
def HeapTuple.readsLoop (t : HeapTuple) :
    List CompactAttribute → (attnum off : Nat) → List DeformTarget → List (Nat × Nat)
  | [], _, _, _ => []
  | att :: atts, attnum, off, targets =>
    t.readsAt att attnum off (targets.takeWhile (·.attIndex = attnum)) ++
      t.readsLoop atts (attnum + 1) (t.next att attnum off)
        (targets.dropWhile (·.attIndex = attnum))

/-- `DeformProgram`, with its targets in the order of their attributes. -/
structure DeformProgram where
  targets : List DeformTarget
  sorted : targets.Pairwise fun a b => a.attIndex ≤ b.attIndex

theorem sorted_targets (targets : List DeformTarget) :
    (targets.insertionSort fun a b => a.attIndex ≤ b.attIndex).Pairwise
      fun a b => a.attIndex ≤ b.attIndex := by
  have : Std.Total fun a b : DeformTarget => a.attIndex ≤ b.attIndex := ⟨fun a b => le_total _ _⟩
  have : IsTrans DeformTarget fun a b => a.attIndex ≤ b.attIndex := ⟨fun a b c => le_trans⟩
  exact List.pairwise_insertionSort _ targets

/-- `DeformProgram::finalize`. -/
def finalize (targets : List DeformTarget) : DeformProgram :=
  ⟨targets.insertionSort fun a b => a.attIndex ≤ b.attIndex, sorted_targets targets⟩

/-- The attributes that are walked over, up to `last_att_index`. -/
def DeformProgram.walked (program : DeformProgram) (desc : List CompactAttribute) :
    List CompactAttribute :=
  desc.take ((program.targets.getLast?.map fun target => target.attIndex + 1).getD 0)

/-- `DataChunkDeformer::deform_tuple_header`. -/
def HeapTuple.deform (t : HeapTuple) (desc : List CompactAttribute) (program : DeformProgram) :
    List Write :=
  t.deformLoop decodeNumeric (program.walked desc) 0 0 program.targets

/-- What it reads. -/
def HeapTuple.reads (t : HeapTuple) (desc : List CompactAttribute) (program : DeformProgram) :
    List (Nat × Nat) :=
  t.readsLoop (program.walked desc) 0 0 program.targets

/-! ## What is asked for -/

/-- What attribute-by-attribute extraction writes for a target. -/
def HeapTuple.extract (t : HeapTuple) (desc : List CompactAttribute) (target : DeformTarget) :
    Write :=
  ⟨target.dstCol, (t.heapGetattr desc target.attIndex).map
    (fetch decodeNumeric target.decodeKind ((desc[target.attIndex]?.map (·.atttypmod)).getD (-1)))⟩

/-- The deformer writes what extraction gives, and reads within the tuple. -/
structure DeformsRight (t : HeapTuple) (desc : List CompactAttribute) (program : DeformProgram) :
    Prop where
  writes : t.deform decodeNumeric desc program =
    program.targets.map (t.extract decodeNumeric desc)
  inBounds : ∀ r ∈ t.reads desc program, r.1 + r.2 ≤ t.len

/-- What `heap_form_tuple` makes: the bitmap lies before the data, the data ends with its last
attribute, no length is zero, and of a `varlena` the header is there. -/
structure WellFormed (t : HeapTuple) (desc : List CompactAttribute) : Prop where
  natts_le : t.natts ≤ desc.length
  bitmap_le : t.hasNulls = true → HeapTuple.bitsOffset + (t.natts + 7) / 8 ≤ t.hoff
  len_eq : t.hoff + t.offsetBehind (desc.take t.natts) 0 0 = t.len
  attlen_pos : ∀ att ∈ desc, att.attlen ≠ some 0
  alignby_pos : ∀ att ∈ desc, 0 < att.attalignby
  header_le : ∀ k (att : CompactAttribute), k < t.natts → desc[k]? = some att →
    t.isnull k = false → att.attlen = none →
    varHeader (t.data (t.startOf desc att k)) ≤ t.varsizeAny (t.startOf desc att k)

/-- A decode kind is one for the type of the attribute (`MapColumnToDeformKind`). The kind of
four bytes is that of a `"char"` too. -/
def KindFits (att : CompactAttribute) : DeformDecodeKind → Prop
  | .int32 => att.attlen = some 4 ∨ att.attlen = some 1
  | .date32 => att.attlen = some 4
  | .int64 | .float8 => att.attlen = some 8
  | .bpchar1 | .stringRef | .numeric => att.attlen = none

/-- A program for a descriptor: the targets are attributes of it, of their kind, and a `char(1)`
has a character. -/
structure Scannable (t : HeapTuple) (desc : List CompactAttribute) (targets : List DeformTarget) :
    Prop where
  att_lt : ∀ target ∈ targets, target.attIndex < desc.length
  kindFits : ∀ target ∈ targets, ∀ att, desc[target.attIndex]? = some att →
    KindFits att target.decodeKind
  has_char : ∀ target ∈ targets, target.decodeKind = .bpchar1 → ∀ att,
    desc[target.attIndex]? = some att → target.attIndex < t.natts →
    t.isnull target.attIndex = false →
    varHeader (t.data (t.startOf desc att target.attIndex)) <
      t.varsizeAny (t.startOf desc att target.attIndex)

/-! ## Where the walk is right -/

/-- **The attributes that are walked over rightly.** One that the tuple has: a `"char"` is
followed by three zero bytes within the tuple. One that it has not: the bit that is read for it
lies in the tuple; where it says NULL there is no missing value, and otherwise the length is
fixed and nothing is asked for. -/
def ColumnFits (t : HeapTuple) (desc : List CompactAttribute) (targets : List DeformTarget)
    (k : Nat) (att : CompactAttribute) : Prop :=
  if k < t.natts then
    t.isnull k = false → ∀ target ∈ targets, target.attIndex = k →
      target.decodeKind = .int32 → att.attlen = some 1 →
      t.hoff + t.startOf desc att k + 4 ≤ t.len ∧ t.bytesAt (t.startOf desc att k + 1) 3 = [0, 0, 0]
  else
    (t.hasNulls = true → HeapTuple.bitsOffset + k / 8 < t.len) ∧
      if t.isnull k = true then ∀ target ∈ targets, target.attIndex = k → att.missing = none
      else att.attlen ≠ none ∧ ∀ target ∈ targets, target.attIndex ≠ k

/-! ## Offsets -/

section Offsets

variable {t : HeapTuple} {desc : List CompactAttribute} {att : CompactAttribute} {k off : Nat}

theorem le_attNominalAlignby (off : Nat) {alignby : Nat} (h : 0 < alignby) :
    off ≤ attNominalAlignby off alignby := by
  have hlt := @Nat.lt_div_mul_add (off + alignby - 1) alignby h
  rw [attNominalAlignby]
  omega

theorem le_alignAtt (h : 0 < att.attalignby) : off ≤ t.alignAtt att off := by
  rw [HeapTuple.alignAtt]
  split_ifs
  · exact le_rfl
  · exact le_attNominalAlignby off h

theorem le_next (h : 0 < att.attalignby) : off ≤ t.next att k off := by
  rw [HeapTuple.next]
  split_ifs
  · exact le_rfl
  · exact (le_alignAtt h).trans (Nat.le_add_right _ _)

theorem offsetBehind_append (xs ys : List CompactAttribute) :
    t.offsetBehind (xs ++ ys) k off = t.offsetBehind ys (k + xs.length) (t.offsetBehind xs k off) := by
  induction xs generalizing k off with
  | nil => rfl
  | cons x xs ih =>
    rw [List.cons_append, HeapTuple.offsetBehind, HeapTuple.offsetBehind, List.length_cons,
      Nat.add_comm xs.length 1, ← Nat.add_assoc]
    split_ifs
    · exact ih
    · exact ih

theorem offsetBehind_succ (h : desc[k]? = some att) :
    t.offsetBehind (desc.take (k + 1)) 0 0 = t.next att k (t.offsetBehind (desc.take k) 0 0) := by
  have hk : k < desc.length := (List.getElem?_eq_some_iff.1 h).1
  rw [List.take_add_one, h, offsetBehind_append, List.length_take, Nat.min_eq_left hk.le,
    Nat.zero_add]
  show t.offsetBehind [att] k _ = _
  rw [HeapTuple.offsetBehind, HeapTuple.next]
  split_ifs <;> rfl

theorem le_offsetBehind (h : ∀ att ∈ desc, 0 < att.attalignby) :
    off ≤ t.offsetBehind desc k off := by
  induction desc generalizing k off with
  | nil => exact le_rfl
  | cons att atts ih =>
    have hrest := fun att' hatt => h att' (List.mem_cons_of_mem att hatt)
    rw [HeapTuple.offsetBehind]
    split_ifs with hnull
    · exact ih hrest
    · have hnext := @le_next t att k off (h att List.mem_cons_self)
      rw [HeapTuple.next, if_neg hnull] at hnext
      exact hnext.trans (ih hrest)

/-- The attributes of a tuple end within it. -/
theorem WellFormed.next_le (h : WellFormed t desc) (hk : k < t.natts) (hatt : desc[k]? = some att) :
    t.hoff + t.next att k (t.offsetBehind (desc.take k) 0 0) ≤ t.len := by
  rw [← h.len_eq, ← offsetBehind_succ hatt]
  have hsplit : desc.take t.natts = desc.take (k + 1) ++ (desc.take t.natts).drop (k + 1) := by
    have hmin : (desc.take t.natts).take (k + 1) = desc.take (k + 1) := by
      rw [List.take_take, Nat.min_eq_left (by omega)]
    rw [← hmin, List.take_append_drop]
  rw [hsplit, offsetBehind_append]
  apply Nat.add_le_add_left
  apply le_offsetBehind
  intro att' hatt'
  exact h.alignby_pos att' (List.mem_of_mem_take (List.mem_of_mem_drop hatt'))

end Offsets

/-! ## One attribute -/

section Stop

variable {t : HeapTuple} {desc : List CompactAttribute} {att : CompactAttribute} {k off : Nat}
  {here : List DeformTarget}

theorem bytesAt_succ (start n : Nat) :
    t.bytesAt start (n + 1) = t.data start :: t.bytesAt (start + 1) n := rfl

/-- Four bytes taken for one. -/
theorem fetch_char_iff {start : Nat} {typmod : Int} :
    fetch decodeNumeric .int32 typmod (t.bytesAt start 4) =
      fetch decodeNumeric .int32 typmod (t.bytesAt start 1) ↔ t.bytesAt (start + 1) 3 = [0, 0, 0] := by
  have hfour : t.bytesAt start 4 = t.data start :: t.bytesAt (start + 1) 3 := rfl
  have hone : t.bytesAt start 1 = [t.data start] := rfl
  rw [hfour, hone]
  obtain ⟨b, c, d, hbytes⟩ : ∃ b c d, t.bytesAt (start + 1) 3 = [b, c, d] := ⟨_, _, _, rfl⟩
  rw [hbytes]
  have ha := (t.data start).toNat_lt
  have hb := b.toNat_lt
  have hc := c.toNat_lt
  have hd := d.toNat_lt
  constructor
  · intro h
    have hword := congrArg (fun v : Int32 => v.toUInt32.toNat) (Datum.int32.inj (Except.ok.inj h))
    simp only [UInt32.toUInt32_toInt32, UInt32.toNat_ofNat', ByteMemory.decode] at hword
    have hzero : b.toNat = 0 ∧ c.toNat = 0 ∧ d.toNat = 0 := by omega
    obtain rfl : b = 0 := UInt8.toNat_inj.1 hzero.1
    obtain rfl : c = 0 := UInt8.toNat_inj.1 hzero.2.1
    obtain rfl : d = 0 := UInt8.toNat_inj.1 hzero.2.2
    rfl
  · intro h
    rw [h]
    rfl

theorem headD_vardataAny {start n : Nat} (h : varHeader (t.data start) < n) :
    (vardataAny (t.bytesAt start n)).headD 0 = t.data (start + varHeader (t.data start)) := by
  have hread : ∀ h n s, h < n → ((t.bytesAt s n).drop h).headD 0 = t.data (s + h) := by
    intro h
    induction h with
    | zero =>
      intro n s hn
      obtain ⟨m, rfl⟩ := Nat.exists_eq_add_of_lt hn
      rw [Nat.zero_add, bytesAt_succ]
      rfl
    | succ h ih =>
      intro n s hn
      obtain ⟨m, rfl⟩ : ∃ m, n = m + 1 := ⟨n - 1, by omega⟩
      rw [bytesAt_succ, List.drop_succ_cons, ih m (s + 1) (by omega), Nat.add_assoc, Nat.add_comm 1]
  have hpos : (t.bytesAt start n).headD 0 = t.data start := by
    have := hread 0 n start (by omega)
    rwa [List.drop_zero] at this
  rw [vardataAny, hpos, hread _ _ _ h]

/-- What the switch makes of an attribute of its kind. -/
theorem fetch_width_iff {kind : DeformDecodeKind} {typmod : Int} {start : Nat}
    (hkind : KindFits att kind)
    (hchar : kind = .bpchar1 → varHeader (t.data start) < t.varsizeAny start)
    (hend : t.hoff + (start + t.size att start) ≤ t.len) :
    (fetch decodeNumeric kind typmod (t.bytesAt start (t.width kind start)) =
        fetch decodeNumeric kind typmod (t.bytesAt start (t.size att start)) ∧
      t.hoff + start + t.width kind start ≤ t.len) ↔
      (kind = .int32 → att.attlen = some 1 →
        t.hoff + start + 4 ≤ t.len ∧ t.bytesAt (start + 1) 3 = [0, 0, 0]) := by
  have hsame : t.width kind start = t.size att start →
      fetch decodeNumeric kind typmod (t.bytesAt start (t.width kind start)) =
          fetch decodeNumeric kind typmod (t.bytesAt start (t.size att start)) ∧
        t.hoff + start + t.width kind start ≤ t.len := fun h => by
    rw [h]
    exact ⟨rfl, by omega⟩
  cases kind with
  | int32 =>
    rcases hkind with hfour | hone
    · refine iff_of_true (hsame (by rw [HeapTuple.size, hfour]; rfl)) fun _ hone => ?_
      rw [hfour] at hone
      cases hone
    · rw [HeapTuple.size, hone, and_comm]
      refine Iff.trans (and_congr_right fun _ => fetch_char_iff decodeNumeric) ?_
      exact ⟨fun h _ _ => h, fun h => h rfl rfl⟩
  | date32 | int64 | float8 | stringRef | numeric =>
    exact iff_of_true (hsame (by rw [HeapTuple.size, hkind]; rfl)) fun h => nomatch h
  | bpchar1 =>
    have hlt := hchar rfl
    have hsize : t.size att start = t.varsizeAny start := by rw [HeapTuple.size, hkind]; rfl
    refine iff_of_true ⟨?_, ?_⟩ fun h => nomatch h
    · rw [hsize, HeapTuple.width, fetch, fetch, headD_vardataAny hlt,
        headD_vardataAny (Nat.lt_succ_self _)]
    · rw [hsize] at hend
      show t.hoff + start + (varHeader (t.data start) + 1) ≤ t.len
      omega

/-- The writes at an attribute are the extracted ones. -/
theorem writesAt_eq_iff {f : DeformTarget → Write} :
    t.writesAt decodeNumeric att k off here = here.map f ↔
      ∀ target ∈ here, (⟨target.dstCol, if t.isnull k then none else
        some (fetch decodeNumeric target.decodeKind att.atttypmod
          (t.bytesAt (t.alignAtt att off) (t.width target.decodeKind (t.alignAtt att off))))⟩ :
            Write) = f target := by
  rw [HeapTuple.writesAt, List.map_inj_left]

/-- The walk reads the pad byte and the header of a `varlena` of the tuple within it. -/
theorem varlena_reads_le (hwf : WellFormed t desc) (hatt : desc[k]? = some att) (hk : k < t.natts)
    (hnull : ¬t.isnull k = true) (hoff : off = t.offsetBehind (desc.take k) 0 0) :
    ∀ r ∈ (if att.attlen = none then [(t.hoff + off, 1),
      (t.hoff + t.alignAtt att off, varHeader (t.data (t.alignAtt att off)))] else []),
        r.1 + r.2 ≤ t.len := by
  intro r hr
  by_cases hlen : att.attlen = none
  · have hstart : t.startOf desc att k = t.alignAtt att off := by rw [hoff]; rfl
    have hheader := hwf.header_le k att hk hatt (Bool.eq_false_iff.2 hnull) hlen
    rw [hstart] at hheader
    have hend := hwf.next_le hk hatt
    rw [← hoff, HeapTuple.next, if_neg hnull, HeapTuple.size, hlen, Option.getD_none] at hend
    have hle : off ≤ t.alignAtt att off :=
      le_alignAtt (hwf.alignby_pos att (List.mem_of_getElem? hatt))
    have hpos : 0 < varHeader (t.data (t.alignAtt att off)) := by
      rw [varHeader]
      split_ifs <;> norm_num
    rw [if_pos hlen] at hr
    rcases List.mem_cons.1 hr with rfl | hr
    · show t.hoff + off + 1 ≤ t.len
      omega
    · obtain rfl := List.mem_singleton.1 hr
      show t.hoff + t.alignAtt att off + varHeader (t.data (t.alignAtt att off)) ≤ t.len
      omega
  · rw [if_neg hlen] at hr
    cases hr

/-- An attribute of the tuple. -/
theorem stop_of_lt (hwf : WellFormed t desc) (hatt : desc[k]? = some att) (hk : k < t.natts)
    (hhere : ∀ target ∈ here, target.attIndex = k) (hscan : Scannable t desc here)
    (hoff : off = t.offsetBehind (desc.take k) 0 0) :
    (t.writesAt decodeNumeric att k off here = here.map (t.extract decodeNumeric desc) ∧
      ∀ r ∈ t.readsAt att k off here, r.1 + r.2 ≤ t.len) ↔ ColumnFits t desc here k att := by
  have hbit : ∀ r ∈ (if t.hasNulls then [(HeapTuple.bitsOffset + k / 8, 1)] else []),
      r.1 + r.2 ≤ t.len := by
    intro r hr
    by_cases hnulls : t.hasNulls = true
    · rw [if_pos hnulls] at hr
      obtain rfl := List.mem_singleton.1 hr
      have hbitmap := hwf.bitmap_le hnulls
      have hlen := hwf.len_eq
      show HeapTuple.bitsOffset + k / 8 + 1 ≤ t.len
      omega
    · rw [if_neg hnulls] at hr
      cases hr
  have hget : ∀ target ∈ here, t.extract decodeNumeric desc target = ⟨target.dstCol,
      if t.isnull k then none else some (fetch decodeNumeric target.decodeKind att.atttypmod
        (t.bytesAt (t.startOf desc att k) (t.size att (t.startOf desc att k))))⟩ := by
    intro target htarget
    rw [HeapTuple.extract, HeapTuple.heapGetattr, hhere target htarget, hatt, Option.bind_some,
      if_neg (by omega)]
    split_ifs <;> rfl
  rw [writesAt_eq_iff, ColumnFits, if_pos hk]
  by_cases hnull : t.isnull k = true
  · refine iff_of_true ⟨fun target htarget => ?_, fun r hr => ?_⟩ fun h => ?_
    · rw [hget target htarget, if_pos hnull, if_pos hnull]
    · rw [HeapTuple.readsAt, if_pos hnull, List.append_nil] at hr
      exact hbit r hr
    · rw [hnull] at h
      cases h
  · have hatt_mem : att ∈ desc := List.mem_of_getElem? hatt
    have hstart : t.startOf desc att k = t.alignAtt att off := by rw [hoff]; rfl
    rw [hstart] at hget ⊢
    have hend : t.hoff + (t.alignAtt att off + t.size att (t.alignAtt att off)) ≤ t.len := by
      have hnext := hwf.next_le hk hatt
      rwa [← hoff, HeapTuple.next, if_neg hnull] at hnext
    have hswitch : ∀ target ∈ here, _ := fun target htarget =>
      @fetch_width_iff decodeNumeric t att target.decodeKind att.atttypmod (t.alignAtt att off)
        (hscan.kindFits target htarget att (by rw [hhere target htarget, hatt]))
        (fun hkind => by
          have hchar := hscan.has_char target htarget hkind att (by rw [hhere target htarget, hatt])
          rw [hhere target htarget, hstart] at hchar
          exact hchar hk (Bool.eq_false_iff.2 hnull))
        hend
    constructor
    · rintro ⟨hwrites, hreads⟩ - target htarget -
      apply (hswitch target htarget).1
      constructor
      · have hcell := congrArg Write.cell (hwrites target htarget)
        rw [hget target htarget, if_neg hnull, if_neg hnull] at hcell
        exact Option.some.inj hcell
      · apply hreads (t.hoff + t.alignAtt att off, t.width target.decodeKind (t.alignAtt att off))
        rw [HeapTuple.readsAt, if_neg hnull]
        apply List.mem_append_right
        apply List.mem_append_right
        exact List.mem_map.2 ⟨target, htarget, rfl⟩
    · intro h
      have hright := fun target htarget => (hswitch target htarget).2
        (h (Bool.eq_false_iff.2 hnull) target htarget (hhere target htarget))
      refine ⟨fun target htarget => ?_, fun r hr => ?_⟩
      · rw [hget target htarget, if_neg hnull, if_neg hnull, (hright target htarget).1]
      · rw [HeapTuple.readsAt, if_neg hnull] at hr
        rcases List.mem_append.1 hr with hr | hr
        · exact hbit r hr
        · rcases List.mem_append.1 hr with hr | hr
          · exact varlena_reads_le hwf hatt hk hnull hoff r hr
          · obtain ⟨target, htarget, rfl⟩ := List.mem_map.1 hr
            exact (hright target htarget).2

/-- An attribute that the tuple does not have. -/
theorem stop_of_le (hatt : desc[k]? = some att) (halign : 0 < att.attalignby) (hk : t.natts ≤ k)
    (hhere : ∀ target ∈ here, target.attIndex = k) (hscan : Scannable t desc here)
    (hoff : t.len ≤ t.hoff + off) :
    (t.writesAt decodeNumeric att k off here = here.map (t.extract decodeNumeric desc) ∧
      ∀ r ∈ t.readsAt att k off here, r.1 + r.2 ≤ t.len) ↔ ColumnFits t desc here k att := by
  have hget : ∀ target ∈ here, t.extract decodeNumeric desc target = ⟨target.dstCol,
      att.missing.map (fetch decodeNumeric target.decodeKind att.atttypmod)⟩ := by
    intro target htarget
    rw [HeapTuple.extract, HeapTuple.heapGetattr, hhere target htarget, hatt, Option.bind_some,
      if_pos hk]
    rfl
  have hbit : (∀ r ∈ (if t.hasNulls then [(HeapTuple.bitsOffset + k / 8, 1)] else []),
      r.1 + r.2 ≤ t.len) ↔ (t.hasNulls = true → HeapTuple.bitsOffset + k / 8 < t.len) := by
    by_cases hnulls : t.hasNulls = true
    · rw [if_pos hnulls, List.forall_mem_singleton]
      exact ⟨fun h _ => h, fun h => h hnulls⟩
    · rw [if_neg hnulls]
      exact iff_of_true (fun r hr => nomatch hr) fun h => absurd h hnulls
  rw [writesAt_eq_iff, ColumnFits, if_neg (by omega), ← hbit, HeapTuple.readsAt,
    List.forall_mem_append]
  by_cases hnull : t.isnull k = true
  · rw [if_pos hnull, if_pos hnull]
    constructor
    · rintro ⟨hwrites, hbits, -⟩
      refine ⟨hbits, fun target htarget _ => ?_⟩
      have hcell := congrArg Write.cell (hwrites target htarget)
      rw [hget target htarget, if_pos hnull] at hcell
      exact Option.map_eq_none_iff.1 hcell.symm
    · rintro ⟨hbits, hmissing⟩
      refine ⟨fun target htarget => ?_, hbits, fun r hr => nomatch hr⟩
      rw [hget target htarget, if_pos hnull, hmissing target htarget (hhere target htarget)]
      rfl
  · rw [if_neg hnull, if_neg hnull]
    have hstart : off ≤ t.alignAtt att off := le_alignAtt halign
    constructor
    · rintro ⟨-, hbits, hreads⟩
      have hfixed : att.attlen ≠ none := by
        intro hlen
        have hpad := hreads (t.hoff + off, 1)
          (List.mem_append_left _ (by rw [if_pos hlen]; exact List.mem_cons_self))
        omega
      refine ⟨hbits, hfixed, fun target htarget _ => ?_⟩
      -- a target reads at least one byte behind the tuple
      have hread := hreads _ (List.mem_append_right _ (List.mem_map.2 ⟨target, htarget, rfl⟩))
      have hkind := hscan.kindFits target htarget att (by rw [hhere target htarget, hatt])
      have hpos : 0 < t.width target.decodeKind (t.alignAtt att off) := by
        cases hdecode : target.decodeKind with
        | int32 | date32 | int64 | float8 | bpchar1 => exact Nat.succ_pos _
        | stringRef | numeric =>
          rw [hdecode] at hkind
          exact absurd hkind hfixed
      have hle : t.hoff + t.alignAtt att off + t.width target.decodeKind (t.alignAtt att off) ≤
        t.len := hread
      omega
    · rintro ⟨hbits, hlen, hnone⟩
      have hempty : here = [] := List.eq_nil_iff_forall_not_mem.2 fun target htarget =>
        hnone target htarget (hhere target htarget)
      rw [hempty, if_neg hlen]
      exact ⟨(fun target htarget => nomatch htarget), hbits, fun r hr => nomatch hr⟩

end Stop

/-! ## The walk -/

section Walk

variable {t : HeapTuple} {desc : List CompactAttribute}

/-- The running offset: behind the attributes of the tuple so far, and behind the tuple from then
on. -/
structure Walked (t : HeapTuple) (desc : List CompactAttribute) (k off : Nat) : Prop where
  inside : k ≤ t.natts → off = t.offsetBehind (desc.take k) 0 0
  behind : t.natts ≤ k → t.len ≤ t.hoff + off

theorem Walked.start (hwf : WellFormed t desc) : Walked t desc 0 0 := by
  refine ⟨fun _ => rfl, fun h => ?_⟩
  have hlen := hwf.len_eq
  rw [Nat.le_zero.1 h] at hlen
  exact hlen.ge

theorem Walked.step (hwf : WellFormed t desc) {k off : Nat} {att : CompactAttribute}
    (h : Walked t desc k off) (hatt : desc[k]? = some att) :
    Walked t desc (k + 1) (t.next att k off) := by
  constructor
  · intro hk
    rw [h.inside (by omega), offsetBehind_succ hatt]
  · intro hk
    rcases Nat.lt_or_ge k t.natts with hlt | hge
    · have heq : t.natts = k + 1 := by omega
      rw [h.inside hlt.le, ← offsetBehind_succ hatt, ← heq]
      exact hwf.len_eq.ge
    · have hle := @le_next t att k off (hwf.alignby_pos att (List.mem_of_getElem? hatt))
      have hbehind := h.behind hge
      omega

theorem Scannable.subset {targets more : List DeformTarget} (h : Scannable t desc more)
    (hsub : ∀ target ∈ targets, target ∈ more) : Scannable t desc targets :=
  ⟨fun target htarget => h.att_lt target (hsub target htarget),
    fun target htarget => h.kindFits target (hsub target htarget),
    fun target htarget => h.has_char target (hsub target htarget)⟩

/-- Of sorted targets, those behind the ones at an attribute are for later attributes. -/
theorem lt_of_mem_dropWhile {targets : List DeformTarget} {k : Nat}
    (hsorted : targets.Pairwise fun a b => a.attIndex ≤ b.attIndex)
    (hle : ∀ target ∈ targets, k ≤ target.attIndex) :
    ∀ target ∈ targets.dropWhile (·.attIndex = k), k < target.attIndex := by
  induction targets with
  | nil => exact fun target h => nomatch h
  | cons first targets ih =>
    have hrest := ih hsorted.of_cons fun target h => hle target (List.mem_cons_of_mem _ h)
    rw [List.dropWhile_cons]
    by_cases hfirst : first.attIndex = k
    · rw [if_pos (decide_eq_true hfirst)]
      exact hrest
    · rw [if_neg (by simpa using hfirst)]
      have hlt : k < first.attIndex := by
        have := hle first List.mem_cons_self
        omega
      intro target htarget
      rcases List.mem_cons.1 htarget with rfl | htarget
      · exact hlt
      · exact hlt.trans_le (List.rel_of_pairwise_cons hsorted htarget)

/-- What is asked of an attribute depends on the targets at it. -/
theorem ColumnFits.congr {targets targets' : List DeformTarget} {k : Nat} {att : CompactAttribute}
    (h : ColumnFits t desc targets k att)
    (hsub : ∀ target ∈ targets', target.attIndex = k → target ∈ targets) :
    ColumnFits t desc targets' k att := by
  rw [ColumnFits] at h ⊢
  by_cases hk : k < t.natts
  · rw [if_pos hk] at h ⊢
    exact fun hnull target htarget hat => h hnull target (hsub target htarget hat) hat
  · rw [if_neg hk] at h ⊢
    refine ⟨h.1, ?_⟩
    by_cases hnull : t.isnull k = true
    · rw [if_pos hnull] at h ⊢
      exact fun target htarget hat => h.2 target (hsub target htarget hat) hat
    · rw [if_neg hnull] at h ⊢
      exact ⟨h.2.1, fun target htarget hat => h.2.2 target (hsub target htarget hat) hat⟩

/-- **The walk is right** if and only if it is at every attribute. -/
theorem loop_iff (hwf : WellFormed t desc) {pre atts post : List CompactAttribute}
    (hdesc : desc = pre ++ atts ++ post) {off : Nat} (hwalked : Walked t desc pre.length off)
    {targets : List DeformTarget} (hsorted : targets.Pairwise fun a b => a.attIndex ≤ b.attIndex)
    (hscan : Scannable t desc targets)
    (hrange : ∀ target ∈ targets, pre.length ≤ target.attIndex ∧
      target.attIndex < pre.length + atts.length) :
    (t.deformLoop decodeNumeric atts pre.length off targets =
        targets.map (t.extract decodeNumeric desc) ∧
      ∀ r ∈ t.readsLoop atts pre.length off targets, r.1 + r.2 ≤ t.len) ↔
      ∀ k att, pre.length ≤ k → k < pre.length + atts.length → desc[k]? = some att →
        ColumnFits t desc targets k att := by
  induction atts generalizing pre off targets with
  | nil =>
    have hempty : targets = [] := List.eq_nil_iff_forall_not_mem.2 fun target htarget => by
      obtain ⟨hle, hlt⟩ := hrange target htarget
      exact absurd hlt (not_lt.2 hle)
    rw [hempty]
    exact iff_of_true ⟨rfl, fun r hr => nomatch hr⟩ fun k att hle hlt =>
      absurd hlt (not_lt.2 hle)
  | cons att atts ih =>
    have hatt : desc[pre.length]? = some att := by
      rw [hdesc, List.append_assoc, List.getElem?_append_right le_rfl, Nat.sub_self]
      rfl
    have hhere : ∀ target ∈ targets.takeWhile (·.attIndex = pre.length),
        target.attIndex = pre.length := fun target htarget =>
      by simpa using List.mem_takeWhile_imp htarget
    have hlater := lt_of_mem_dropWhile hsorted fun target htarget => (hrange target htarget).1
    have hsub : ∀ target ∈ targets.takeWhile (·.attIndex = pre.length), target ∈ targets :=
      fun target htarget => (List.takeWhile_sublist _).subset htarget
    have hsub' : ∀ target ∈ targets.dropWhile (·.attIndex = pre.length), target ∈ targets :=
      fun target htarget => (List.dropWhile_sublist _).subset htarget
    have hmem : ∀ target ∈ targets, target ∈ targets.takeWhile (·.attIndex = pre.length) ∨
        target ∈ targets.dropWhile (·.attIndex = pre.length) := fun target htarget => by
      rwa [← List.mem_append, List.takeWhile_append_dropWhile]
    have hsplit : targets.map (t.extract decodeNumeric desc) =
        (targets.takeWhile (·.attIndex = pre.length)).map (t.extract decodeNumeric desc) ++
          (targets.dropWhile (·.attIndex = pre.length)).map (t.extract decodeNumeric desc) := by
      rw [← List.map_append, List.takeWhile_append_dropWhile]
    have hstop : (t.writesAt decodeNumeric att pre.length off
          (targets.takeWhile (·.attIndex = pre.length)) =
            (targets.takeWhile (·.attIndex = pre.length)).map (t.extract decodeNumeric desc) ∧
        ∀ r ∈ t.readsAt att pre.length off (targets.takeWhile (·.attIndex = pre.length)),
          r.1 + r.2 ≤ t.len) ↔ ColumnFits t desc targets pre.length att := by
      have hcongr : ColumnFits t desc (targets.takeWhile (·.attIndex = pre.length)) pre.length att ↔
          ColumnFits t desc targets pre.length att := by
        refine ⟨fun h => h.congr fun target htarget hat => ?_, fun h => h.congr fun target htarget _ =>
          hsub target htarget⟩
        exact (hmem target htarget).resolve_right fun h => (hlater target h).ne' hat
      rw [← hcongr]
      rcases Nat.lt_or_ge pre.length t.natts with hlt | hge
      · exact stop_of_lt decodeNumeric hwf hatt hlt hhere (hscan.subset hsub)
          (hwalked.inside hlt.le)
      · exact stop_of_le decodeNumeric hatt (hwf.alignby_pos att (List.mem_of_getElem? hatt)) hge
          hhere (hscan.subset hsub) (hwalked.behind hge)
    have hlength : (pre ++ [att]).length = pre.length + 1 := by simp
    have hloop := @ih (pre ++ [att]) (by rw [hdesc]; simp) (t.next att pre.length off)
      (by rw [hlength]; exact hwalked.step hwf hatt)
      (targets.dropWhile (·.attIndex = pre.length))
      (hsorted.sublist (List.dropWhile_sublist _)) (hscan.subset hsub') fun target htarget => by
        have hlt := hlater target htarget
        have hrange' := (hrange target (hsub' target htarget)).2
        rw [List.length_cons] at hrange'
        rw [hlength]
        omega
    rw [hlength] at hloop
    have hrest : (∀ k att', pre.length + 1 ≤ k → k < pre.length + 1 + atts.length →
        desc[k]? = some att' → ColumnFits t desc (targets.dropWhile (·.attIndex = pre.length)) k att') ↔
        ∀ k att', pre.length + 1 ≤ k → k < pre.length + 1 + atts.length →
          desc[k]? = some att' → ColumnFits t desc targets k att' := by
      refine forall₂_congr fun k att' => forall₃_congr fun hle _ _ => ?_
      refine ⟨fun h => h.congr fun target htarget hat => ?_, fun h => h.congr fun target htarget _ =>
        hsub' target htarget⟩
      refine (hmem target htarget).resolve_left fun h => ?_
      have := hhere target h
      omega
    rw [hrest] at hloop
    rw [HeapTuple.deformLoop, HeapTuple.readsLoop, List.forall_mem_append]
    constructor
    · rintro ⟨hwrites, hreads, hreads'⟩ k att' hle hlt hatt'
      rw [hsplit] at hwrites
      obtain ⟨hhead, htail⟩ := List.append_inj hwrites (by rw [HeapTuple.writesAt]; simp)
      rcases Nat.eq_or_lt_of_le hle with rfl | hlt'
      · rw [hatt] at hatt'
        obtain rfl := Option.some.inj hatt'
        exact hstop.1 ⟨hhead, hreads⟩
      · exact hloop.1 ⟨htail, hreads'⟩ k att' hlt' (by rw [List.length_cons] at hlt; omega) hatt'
    · intro h
      have hhead := hstop.2 (h pre.length att le_rfl (by rw [List.length_cons]; omega) hatt)
      have htail := hloop.2 fun k att' hle hlt hatt' =>
        h k att' (by omega) (by rw [List.length_cons]; omega) hatt'
      refine ⟨?_, hhead.2, htail.2⟩
      rw [hhead.1, htail.1, hsplit]

end Walk

/-- The walk ends with the last attribute that is asked for. -/
theorem lt_last_iff {program : DeformProgram} {k : Nat} :
    k < (program.targets.getLast?.map fun target => target.attIndex + 1).getD 0 ↔
      ∃ target ∈ program.targets, k ≤ target.attIndex := by
  have hsorted := program.sorted
  rcases List.eq_nil_or_concat program.targets with hempty | ⟨targets, last, hlast⟩
  · rw [hempty]
    exact iff_of_false (Nat.not_lt_zero k) fun ⟨target, htarget, _⟩ => nomatch htarget
  · rw [hlast, List.concat_eq_append] at hsorted ⊢
    rw [List.getLast?_concat, Option.map_some, Option.getD_some, Nat.lt_succ_iff]
    constructor
    · exact fun h => ⟨last, List.mem_append_right _ List.mem_cons_self, h⟩
    · rintro ⟨target, htarget, hle⟩
      rcases List.mem_append.1 htarget with htarget | htarget
      · exact hle.trans ((List.pairwise_append.1 hsorted).2.2 target htarget last List.mem_cons_self)
      · rwa [List.mem_singleton.1 htarget] at hle

/-- **The deformer is right on the tuples that have what it walks over**: it writes what
attribute-by-attribute extraction gives, and reads within the tuple, if and only if every
attribute up to the last one that is asked for fits. -/
theorem deform_exact {t : HeapTuple} {desc : List CompactAttribute} {program : DeformProgram}
    (hwf : WellFormed t desc) (hscan : Scannable t desc program.targets) :
    DeformsRight decodeNumeric t desc program ↔
      ∀ k att, (∃ target ∈ program.targets, k ≤ target.attIndex) → desc[k]? = some att →
        ColumnFits t desc program.targets k att := by
  have hlength : (program.walked desc).length =
      min ((program.targets.getLast?.map fun target => target.attIndex + 1).getD 0) desc.length :=
    List.length_take
  have hloop := @loop_iff decodeNumeric t desc hwf [] (program.walked desc)
    (desc.drop ((program.targets.getLast?.map fun target => target.attIndex + 1).getD 0))
    (List.take_append_drop _ _).symm 0 (Walked.start hwf) program.targets program.sorted hscan
    fun target htarget => by
      have hlast := lt_last_iff.2 ⟨target, htarget, le_rfl⟩
      have hlt := hscan.att_lt target htarget
      rw [hlength, List.length_nil]
      omega
  have hright : DeformsRight decodeNumeric t desc program ↔
      t.deform decodeNumeric desc program = program.targets.map (t.extract decodeNumeric desc) ∧
        ∀ r ∈ t.reads desc program, r.1 + r.2 ≤ t.len :=
    ⟨fun h => ⟨h.writes, h.inBounds⟩, fun h => ⟨h.1, h.2⟩⟩
  rw [hright]
  refine hloop.trans (forall₂_congr fun k att => ?_)
  rw [← lt_last_iff, hlength, List.length_nil]
  constructor
  · intro h hlt hatt
    have hk := (List.getElem?_eq_some_iff.1 hatt).1
    exact h (Nat.zero_le k) (by omega) hatt
  · intro h _ hlt hatt
    exact h (by omega) hatt

/-- An `int4` that is NULL and the text "a". -/
def nullAndText : HeapTuple where
  natts := 2
  hasNulls := true
  hoff := 24
  len := 26
  bytes := fun a => if a = 23 then 2 else if a = 24 then 5 else if a = 25 then 97 else 0

/-- An `int4` column and a text column. -/
def int4AndText : List CompactAttribute := [⟨some 4, 4, -1, none⟩, ⟨none, 4, -1, none⟩]

/-- Both columns. -/
def bothColumns : DeformProgram := finalize [⟨0, 0, .int32⟩, ⟨1, 1, .stringRef⟩]

theorem deform_exact_text :
    DeformsRight (fun _ _ => .error "no numeric") nullAndText int4AndText bothColumns := by
  have hwf : WellFormed nullAndText int4AndText := by
    refine ⟨le_rfl, fun _ => le_rfl, rfl, by decide, by decide, fun k att hk hatt hnull hlen => ?_⟩
    have hk' : k = 0 ∨ k = 1 := by
      have : k < 2 := hk
      omega
    rcases hk' with rfl | rfl
    · cases hnull
    · obtain rfl := Option.some.inj hatt
      decide
  have hscan : Scannable nullAndText int4AndText bothColumns.targets := by
    refine ⟨?_, ?_, ?_⟩
    · decide
    · intro target htarget att hatt
      rcases List.mem_cons.1 htarget with rfl | htarget
      · obtain rfl := Option.some.inj hatt
        exact Or.inl rfl
      · obtain rfl := List.mem_singleton.1 htarget
        obtain rfl := Option.some.inj hatt
        rfl
    · intro target htarget hkind
      rcases List.mem_cons.1 htarget with rfl | htarget
      · cases hkind
      · obtain rfl := List.mem_singleton.1 htarget
        cases hkind
  refine (deform_exact _ hwf hscan).2 fun k att hlast hatt => ?_
  have hk : k < nullAndText.natts := (List.getElem?_eq_some_iff.1 hatt).1
  rw [ColumnFits, if_pos hk]
  intro hnull target htarget hat hkind hchar
  rcases List.mem_cons.1 htarget with rfl | htarget
  · obtain rfl : 0 = k := hat
    cases hnull
  · obtain rfl := List.mem_singleton.1 htarget
    cases hkind

/-- An `int4`, with nothing behind it. -/
def oneColumn : HeapTuple where
  natts := 1
  hasNulls := false
  hoff := 24
  len := 28
  bytes := fun _ => 0

/-- Two `int4` columns, the second one added later. -/
def addedColumn : List CompactAttribute := [⟨some 4, 4, -1, none⟩, ⟨some 4, 4, -1, none⟩]

/-- The second column. -/
def lastColumn : DeformProgram := finalize [⟨1, 0, .int32⟩]

/-- The added column of a tuple from before is read behind the tuple. -/
theorem not_deformsRight : ¬∀ (decodeNumeric : Int → List UInt8 → Except String Datum)
    (t : HeapTuple) (desc : List CompactAttribute) (program : DeformProgram),
    WellFormed t desc → Scannable t desc program.targets →
      DeformsRight decodeNumeric t desc program := by
  intro h
  have hwf : WellFormed oneColumn addedColumn := by
    refine ⟨by decide, (fun hnulls => nomatch hnulls), rfl, by decide, by decide,
      fun k att hk hatt hnull hlen => ?_⟩
    obtain rfl : k = 0 := Nat.lt_one_iff.1 hk
    obtain rfl := Option.some.inj hatt
    cases hlen
  have hscan : Scannable oneColumn addedColumn lastColumn.targets := by
    refine ⟨by decide, fun target htarget att hatt => ?_, fun target htarget hkind => ?_⟩
    · obtain rfl := List.mem_singleton.1 htarget
      obtain rfl := Option.some.inj hatt
      exact Or.inl rfl
    · obtain rfl := List.mem_singleton.1 htarget
      cases hkind
  have hright := h (fun _ _ => .error "no numeric") oneColumn addedColumn lastColumn hwf hscan
  have hread : 28 + 4 ≤ 28 := hright.inBounds (28, 4) (by decide)
  exact absurd hread (by decide)

end Deform

end HeapTuples
end PgYaap
