import Mathlib

/-! # Chunks, layouts and the row codec

Operators pass rows on in chunks of typed columns; sinks keep rows in the format
a layout describes. A chunk has sixteen slots for each kind of column, a null
flag for every slot and row, and a slot may be dictionary encoded: its rows are
then indices into another slot. A stored row has the values of the columns of
its layout and nothing else: the row format has no null flags.

Values are modelled as such: a double by its bits, a string by its bytes. -/
namespace PgYaap

inductive TdcColumnKind
  | int32
  | int64
  | double
  | stringRef
deriving DecidableEq

/-- A value of one of the column kinds. -/
inductive Datum
  | int32 (v : Int32)
  | int64 (v : Int64)
  | double (bits : UInt64)
  | stringRef (bytes : List UInt8)
deriving DecidableEq

def Datum.kind : Datum → TdcColumnKind
  | .int32 _ => .int32
  | .int64 _ => .int64
  | .double _ => .double
  | .stringRef _ => .stringRef

structure VecDictionaryDesc where
  active : Bool
  sourceSlot : Nat

/-- The columns of one kind: values and dictionary indices by slot and row. -/
structure ChunkColumns (α : Type) where
  columns : Nat → Nat → α
  dictIndices : Nat → Nat → Nat
  dict : Nat → VecDictionaryDesc

/-- A value, through the dictionary of its slot. -/
def ChunkColumns.get {α : Type} (c : ChunkColumns α) (slot rowIdx : Nat) : α :=
  if (c.dict slot).active then c.columns (c.dict slot).sourceSlot (c.dictIndices slot rowIdx)
  else c.columns slot rowIdx

/-- `DataChunk`. The flag of a row is not looked up through the dictionary. -/
structure DataChunk where
  count : Nat
  int32 : ChunkColumns Int32
  int64 : ChunkColumns Int64
  double : ChunkColumns UInt64
  string : ChunkColumns (List UInt8)
  nulls : Nat → Nat → UInt8

namespace DataChunk

def getInt32 (chunk : DataChunk) (slot rowIdx : Nat) : Int32 := chunk.int32.get slot rowIdx

def getInt64 (chunk : DataChunk) (slot rowIdx : Nat) : Int64 := chunk.int64.get slot rowIdx

def getDouble (chunk : DataChunk) (slot rowIdx : Nat) : UInt64 := chunk.double.get slot rowIdx

def getString (chunk : DataChunk) (slot rowIdx : Nat) : List UInt8 := chunk.string.get slot rowIdx

/-- The value of a column kind in a slot. -/
def get (chunk : DataChunk) (kind : TdcColumnKind) (slot rowIdx : Nat) : Datum :=
  match kind with
  | .int32 => .int32 (chunk.getInt32 slot rowIdx)
  | .int64 => .int64 (chunk.getInt64 slot rowIdx)
  | .double => .double (chunk.getDouble slot rowIdx)
  | .stringRef => .stringRef (chunk.getString slot rowIdx)

@[simp] theorem get_kind (chunk : DataChunk) (kind : TdcColumnKind) (slot rowIdx : Nat) :
    (chunk.get kind slot rowIdx).kind = kind := by
  cases kind <;> rfl

end DataChunk

/-- A column of a layout: its kind, and the chunk slot it comes from. -/
structure TdcColumnDesc where
  kind : TdcColumnKind
  srcColIdx : Nat
deriving DecidableEq

/-- The group columns a chunk row has under a list of column descriptors. -/
def DataChunk.groupColumns (chunk : DataChunk) (columns : List TdcColumnDesc) (rowIdx : Nat) :
    List Datum :=
  columns.map fun col => chunk.get col.kind col.srcColIdx rowIdx

/-- Whether a chunk row carries the null flag in one of the columns. -/
def DataChunk.hasNull (chunk : DataChunk) (columns : List TdcColumnDesc) (rowIdx : Nat) : Bool :=
  columns.any fun col => chunk.nulls col.srcColIdx rowIdx ≠ 0

/-- `ScatterGroupColumns`: the stored row of a chunk row. Null flags are not looked at. -/
def scatterGroupColumns (columns : List TdcColumnDesc) (chunk : DataChunk) (rowIdx : Nat) :
    List Datum :=
  chunk.groupColumns columns rowIdx

/-! ## Hashing -/

def mix64 (v : UInt64) : UInt64 :=
  let v := v ^^^ (v >>> 30)
  let v := v * 0xbf58476d1ce4e5b9
  let v := v ^^^ (v >>> 27)
  let v := v * 0x94d049bb133111eb
  v ^^^ (v >>> 31)

def hashStart : UInt64 := 0x9ae16a3b2f90404f

def hashCombine (hash value : UInt64) (columnIndex : UInt16) : UInt64 :=
  let lane := value + 0x9e3779b97f4a7c15 * (columnIndex.toUInt64 + 1)
  mix64 (hash ^^^ mix64 lane)

def hashSingleGroupInt32Value (value : Int32) : UInt64 :=
  mix64 (hashCombine hashStart value.toUInt32.toUInt64 0 ^^^ 1)

def hashSingleGroupInt64Value (value : Int64) : UInt64 :=
  mix64 (hashCombine hashStart value.toUInt64 0 ^^^ 1)

/-- The `prefix` bytes of a string reference: the first eight bytes, zero padded. -/
def stringPrefix (bytes : List UInt8) : List UInt8 :=
  bytes.take 8 ++ List.replicate (8 - bytes.length) 0

/-- The little-endian value of the prefix bytes. -/
def stringPrefixValue (bytes : List UInt8) : UInt64 :=
  (stringPrefix bytes).foldr (fun b acc => acc <<< 8 ||| b.toUInt64) 0

/-- The hash value of a string in column `i`: prefix and length, then every byte. -/
def hashString (i : Nat) (bytes : List UInt8) : UInt64 :=
  bytes.zipIdx.foldl (fun value x => hashCombine value x.1.toUInt64 (UInt16.ofNat (i + x.2)))
    (mix64 (stringPrefixValue bytes ^^^ UInt64.ofNat bytes.length))

/-- What `HashGroup` feeds into the hash for a value in column `i`. -/
def Datum.hashValue (i : Nat) : Datum → UInt64
  | .int32 v => v.toUInt32.toUInt64
  | .int64 v => v.toUInt64
  | .double bits => bits
  | .stringRef bytes => hashString i bytes

/-- The loop of `HashGroup` and `HashGroupRow` over the columns. -/
def hashColumns (values : List Datum) : UInt64 :=
  mix64 (values.zipIdx.foldl (fun h x => hashCombine h (x.1.hashValue x.2) (UInt16.ofNat x.2))
    hashStart ^^^ UInt64.ofNat values.length)

/-- `HashGroup`, with its branch for a single integer column. -/
def hashGroup (columns : List TdcColumnDesc) (chunk : DataChunk) (rowIdx : Nat) : UInt64 :=
  match columns with
  | [⟨.int32, slot⟩] => hashSingleGroupInt32Value (chunk.getInt32 slot rowIdx)
  | [⟨.int64, slot⟩] => hashSingleGroupInt64Value (chunk.getInt64 slot rowIdx)
  | columns => hashColumns (chunk.groupColumns columns rowIdx)

/-- `HashGroupRow`, with its branch for a single integer column. -/
def hashGroupRow (row : List Datum) : UInt64 :=
  match row with
  | [.int32 v] => hashSingleGroupInt32Value v
  | [.int64 v] => hashSingleGroupInt64Value v
  | row => hashColumns row

/-- The branches for one integer column compute the general hash. -/
theorem hashGroupRow_eq (row : List Datum) : hashGroupRow row = hashColumns row := by
  unfold hashGroupRow
  split <;> rfl

/-- **A stored row hashes like the chunk row it was scattered from.** -/
theorem hashGroup_eq (columns : List TdcColumnDesc) (chunk : DataChunk) (rowIdx : Nat) :
    hashGroup columns chunk rowIdx = hashColumns (chunk.groupColumns columns rowIdx) := by
  unfold hashGroup
  split <;> rfl

/-! ## Matching -/

/-- The comparison of two string references: length and prefix, and the bytes
when the string is longer than the prefix. -/
def matchString (a b : List UInt8) : Bool :=
  a.length = b.length && stringPrefix a = stringPrefix b && (a.length ≤ 8 || a = b)

/-- The comparison of a stored value with a chunk value of the same kind; a
double is compared by its bits. -/
def Datum.matches : Datum → Datum → Bool
  | .int32 a, .int32 b => a = b
  | .int64 a, .int64 b => a = b
  | .double a, .double b => a = b
  | .stringRef a, .stringRef b => matchString a b
  | _, _ => false

/-- `MatchGroup` of a stored row and a chunk row under the same layout. -/
def matchGroup (row : List Datum) (columns : List TdcColumnDesc) (chunk : DataChunk)
    (rowIdx : Nat) : Bool :=
  (row.zip columns).all fun x => x.1.matches (chunk.get x.2.kind x.2.srcColIdx rowIdx)

/-- `MatchGroupLayouts` of a stored row and a chunk row under layouts of their
own. Its branches for one column and for two INT32 columns make the same
comparisons as the loop. -/
def matchGroupLayouts (rowColumns : List TdcColumnDesc) (row : List Datum)
    (chunkColumns : List TdcColumnDesc) (chunk : DataChunk) (rowIdx : Nat) : Bool :=
  rowColumns.length = chunkColumns.length &&
    ((rowColumns.zip row).zip chunkColumns).all fun x =>
      x.1.1.kind = x.2.kind && x.1.2.matches (chunk.get x.2.kind x.2.srcColIdx rowIdx)

theorem eq_of_stringPrefix_eq {a b : List UInt8} (hlen : a.length = b.length) (ha : a.length ≤ 8)
    (h : stringPrefix a = stringPrefix b) : a = b := by
  unfold stringPrefix at h
  rw [List.take_of_length_le ha, List.take_of_length_le (hlen ▸ ha), hlen] at h
  exact List.append_cancel_right h

@[simp] theorem matchString_iff {a b : List UInt8} : matchString a b = true ↔ a = b := by
  constructor
  · intro h
    simp only [matchString, Bool.and_eq_true, Bool.or_eq_true, decide_eq_true_eq] at h
    obtain ⟨⟨hlen, hprefix⟩, hshort | heq⟩ := h
    · exact eq_of_stringPrefix_eq hlen hshort hprefix
    · exact heq
  · rintro rfl
    simp [matchString]

/-- Values match exactly when they are equal, bit for bit. -/
@[simp] theorem Datum.matches_iff {a b : Datum} : a.matches b = true ↔ a = b := by
  cases a <;> cases b <;> simp [Datum.matches]

theorem matchGroup_iff {columns : List TdcColumnDesc} {row : List Datum} {chunk : DataChunk}
    {rowIdx : Nat} (hlen : row.length = columns.length) :
    matchGroup row columns chunk rowIdx = true ↔ row = chunk.groupColumns columns rowIdx := by
  unfold matchGroup DataChunk.groupColumns
  induction columns generalizing row with
  | nil =>
    rw [List.length_eq_zero_iff.mp hlen]
    simp
  | cons col columns ih =>
    cases row with
    | nil => cases hlen
    | cons d row =>
      have hlen' : row.length = columns.length := by simpa using hlen
      have htail := ih hlen'
      rw [List.zip_cons_cons, List.all_cons, Bool.and_eq_true, htail, Datum.matches_iff,
        List.map_cons, List.cons.injEq]

/-- **Matching under two layouts** compares the stored values with the chunk
values, kinds included. -/
theorem matchGroupLayouts_iff {rowColumns chunkColumns : List TdcColumnDesc} {row : List Datum}
    {chunk : DataChunk} {rowIdx : Nat} (hrow : row.map Datum.kind = rowColumns.map (·.kind)) :
    matchGroupLayouts rowColumns row chunkColumns chunk rowIdx = true ↔
      row = chunk.groupColumns chunkColumns rowIdx := by
  unfold matchGroupLayouts DataChunk.groupColumns
  induction chunkColumns generalizing rowColumns row with
  | nil =>
    cases rowColumns with
    | nil =>
      rw [List.map_nil, List.map_eq_nil_iff] at hrow
      simp [hrow]
    | cons rc rcs =>
      cases row with
      | nil => cases hrow
      | cons d row => simp
  | cons col columns ih =>
    cases rowColumns with
    | nil =>
      rw [List.map_nil, List.map_eq_nil_iff] at hrow
      simp [hrow]
    | cons rc rcs =>
      cases row with
      | nil => cases hrow
      | cons d row =>
        rw [List.map_cons, List.map_cons, List.cons.injEq] at hrow
        have htail := ih hrow.2
        simp only [Bool.and_eq_true, decide_eq_true_eq, List.length_cons, Nat.add_right_cancel_iff,
          List.zip_cons_cons, List.all_cons, Datum.matches_iff, List.map_cons, List.cons.injEq]
          at htail ⊢
        rw [← htail]
        constructor
        · rintro ⟨hlen, ⟨_, hd⟩, hall⟩
          exact ⟨hd, hlen, hall⟩
        · rintro ⟨hd, hlen, hall⟩
          refine ⟨hlen, ⟨?_, hd⟩, hall⟩
          rw [← hrow.1, hd, DataChunk.get_kind]

theorem scatter_kinds (columns : List TdcColumnDesc) (chunk : DataChunk) (rowIdx : Nat) :
    (scatterGroupColumns columns chunk rowIdx).map Datum.kind = columns.map (·.kind) := by
  simp [scatterGroupColumns, DataChunk.groupColumns]

end PgYaap
