import Mathlib
import PgYaap.ByteMemory
import PgYaap.TupleData

/-! # The row store

A tuple data collection is one flat allocation: rows of a fixed width, and after
them a heap for the bytes of long strings. A string column holds a reference of
16 bytes: a length, a heap offset, and the first eight bytes; a string of at most
eight bytes is in the reference itself. Offsets are relative to the heap of the
collection, so a row that moves to another collection needs its strings stored
again, or its offsets moved.

The 32-bit counters are natural numbers, with the wrap written out where the
code does not exclude it. Appends take a lock and are atomic. -/
namespace PgYaap

/-- `UINT32_MAX`. -/
def uint32Max : Nat := 0xFFFFFFFF

/-- `TupleDataLayoutColumnWidth`. -/
def TdcColumnKind.width : TdcColumnKind → Nat
  | .int32 => 4
  | .int64 => 8
  | .double => 8
  | .stringRef => 16

/-- A column of a layout with its place in the row. -/
structure TdcPlacedColumn extends TdcColumnDesc where
  offset : Nat
  pgTypeOid : Nat
  numericScale : Int
deriving DecidableEq

/-- The end of a column in the row. -/
def TdcPlacedColumn.stop (col : TdcPlacedColumn) : Nat := col.offset + col.kind.width

/-- Columns in the order of their offsets, apart from each other, between two offsets. -/
def Placed (start : Nat) : List TdcPlacedColumn → Nat → Prop
  | [], stop => start ≤ stop
  | col :: cols, stop => start ≤ col.offset ∧ Placed col.stop cols stop

theorem Placed.append {start stop stop' : Nat} {cols : List TdcPlacedColumn}
    {col : TdcPlacedColumn} (h : Placed start cols stop) (hcol : stop ≤ col.offset)
    (hstop : col.stop ≤ stop') : Placed start (cols ++ [col]) stop' := by
  induction cols generalizing start with
  | nil => exact ⟨Nat.le_trans h hcol, hstop⟩
  | cons c cols ih => exact ⟨h.1, ih h.2⟩

theorem Placed.le {start stop : Nat} {cols : List TdcPlacedColumn} (h : Placed start cols stop) :
    start ≤ stop := by
  induction cols generalizing start with
  | nil => exact h
  | cons c cols ih =>
    have hstop := ih h.2
    have hle : c.offset ≤ c.stop := Nat.le_add_right _ _
    exact Nat.le_trans h.1 (Nat.le_trans hle hstop)

theorem Placed.mem {start stop : Nat} {cols : List TdcPlacedColumn} (h : Placed start cols stop)
    {c : TdcPlacedColumn} (hc : c ∈ cols) : start ≤ c.offset ∧ c.stop ≤ stop := by
  induction cols generalizing start with
  | nil => cases hc
  | cons d cols ih =>
    rcases List.mem_cons.mp hc with rfl | hc
    · exact ⟨h.1, h.2.le⟩
    · have hrest := ih h.2 hc
      have hle : d.offset ≤ d.stop := Nat.le_add_right _ _
      exact ⟨Nat.le_trans h.1 (Nat.le_trans hle hrest.1), hrest.2⟩

/-- `TupleDataLayout`, without aggregates: the layouts of a join have none. -/
structure TupleDataLayout where
  columns : List TdcPlacedColumn
  rowWidth : Nat
  placed : Placed 0 columns rowWidth

namespace TupleDataLayout

/-- `TupleDataLayoutInit`. -/
def init : TupleDataLayout := ⟨[], 0, Nat.le_refl 0⟩

/-- `TupleDataLayoutAppendColumn`: the column advances the row by its width,
rounded up to eight bytes. -/
def appendColumn (layout : TupleDataLayout) (kind : TdcColumnKind) (srcColIdx pgTypeOid : Nat)
    (numericScale : Int) : Except String TupleDataLayout :=
  if 32 ≤ layout.columns.length then .error "pg_yaap: TupleDataLayout column overflow (max %u)"
  else .ok
    { columns := layout.columns ++
        [⟨⟨kind, srcColIdx⟩, layout.rowWidth, pgTypeOid, numericScale⟩]
      rowWidth := layout.rowWidth + (kind.width + 7) / 8 * 8
      placed := layout.placed.append (Nat.le_refl _) (by
        change layout.rowWidth + kind.width ≤ _
        omega) }

/-- The columns without their places. -/
def descs (layout : TupleDataLayout) : List TdcColumnDesc :=
  layout.columns.map TdcPlacedColumn.toTdcColumnDesc

/-- `LayoutHasStringRef`. -/
def hasStringRef (layout : TupleDataLayout) : Bool :=
  layout.columns.any fun col => col.kind = .stringRef

/-- `LayoutsEqual`. -/
def layoutsEqual (a b : TupleDataLayout) : Bool :=
  a.columns = b.columns && a.rowWidth = b.rowWidth

theorem eq_of_layoutsEqual {a b : TupleDataLayout} (h : layoutsEqual a b = true) : a = b := by
  simp only [layoutsEqual, Bool.and_eq_true, decide_eq_true_eq] at h
  cases a
  cases b
  obtain ⟨h, h'⟩ := h
  dsimp only at h h'
  subst h h'
  rfl

end TupleDataLayout

/-! ## String references -/

structure VecStringRef where
  len : Nat
  offset : Nat
  prefixBytes : List UInt8
deriving DecidableEq

namespace VecStringRef

/-- `kVecStringInlineOffset`. -/
def inlineOffset : Nat := uint32Max

/-- `VecStringRefIsInline`. -/
def isInline (ref : VecStringRef) : Bool :=
  0 < ref.len && ref.len ≤ 8 && ref.offset = inlineOffset

/-- The string of a reference, with the heap at `heap`: `VecStringRefDataPtr`. -/
def data (ref : VecStringRef) (m : ByteMemory) (heap : Nat) : List UInt8 :=
  if ref.len = 0 then []
  else if ref.isInline then ref.prefixBytes.take ref.len
  else m.read (heap + ref.offset) ref.len

/-- The 16 bytes of a reference. -/
def bytes (ref : VecStringRef) : List UInt8 :=
  ByteMemory.encode 4 ref.len ++ (ByteMemory.encode 4 ref.offset ++ ref.prefixBytes)

def ofBytes (bs : List UInt8) : VecStringRef where
  len := ByteMemory.decode (bs.take 4)
  offset := ByteMemory.decode ((bs.drop 4).take 4)
  prefixBytes := bs.drop 8

/-- **A reference comes back from its bytes.** -/
theorem ofBytes_bytes {ref : VecStringRef} (hlen : ref.len < 2 ^ 32) (hoff : ref.offset < 2 ^ 32) :
    ofBytes ref.bytes = ref := by
  unfold ofBytes bytes
  rw [List.take_left' (by simp), List.drop_left' (by simp), List.take_left' (by simp),
    ← List.drop_drop (i := 4) (j := 4), List.drop_left' (by simp), List.drop_left' (by simp),
    ByteMemory.decode_encode_of_lt (by simpa using hlen),
    ByteMemory.decode_encode_of_lt (by simpa using hoff)]

@[simp] theorem length_bytes {ref : VecStringRef} (h : ref.prefixBytes.length = 8) :
    ref.bytes.length = 16 := by
  simp [bytes, h]

end VecStringRef

/-! ## Collections -/

/-- `TupleDataCollection`. The memory is everything from `rows[0]` on. -/
structure TupleDataCollection where
  rowWidth : Nat
  rowCapacity : Nat
  rowCount : Nat
  heapCapacity : Nat
  heapUsed : Nat
  rows : ByteMemory

namespace TupleDataCollection

/-- `kTupleDataCollectionMaxFlatAllocBytes`. -/
def maxFlatAllocBytes : Nat := 3 * 1024 * 1024 * 1024

/-- `offsetof(TupleDataCollection, rows)`. -/
def headerBytes : Nat := 40

/-- `TupleDataCollectionCheckFlatAllocSize`. -/
def checkFlatAllocSize (rowCapacity rowWidth heapCapacity : Nat) : Except String Unit :=
  if maxFlatAllocBytes ≤ headerBytes + rowCapacity * rowWidth + heapCapacity then
    .error "pg_yaap: TDC flat allocation exceeds limit (rows=%u row_width=%u heap=%u size=%llu limit=%llu)"
  else .ok ()

/-- `TupleDataCollectionAllocate` and `TupleDataCollectionInit`. -/
def allocate (rowCapacity rowWidth heapCapacity : Nat) : Except String TupleDataCollection := do
  checkFlatAllocSize rowCapacity rowWidth heapCapacity
  return ⟨rowWidth, rowCapacity, 0, heapCapacity, 0, fun _ => 0⟩

/-- `TupleDataCollectionHeap`: where the heap begins. -/
def heap (t : TupleDataCollection) : Nat := t.rowCapacity * t.rowWidth

/-- `TupleDataCollectionGetRow`: where a row begins. -/
def getRow (t : TupleDataCollection) (rowIdx : Nat) : Nat := rowIdx * t.rowWidth

/-- `TupleDataCollectionDefaultHeapCapacity`. -/
def defaultHeapCapacity (layout : TupleDataLayout) (rowCapacity : Nat) : Nat :=
  min (rowCapacity * (layout.columns.countP fun col => col.kind = .stringRef) * 96) uint32Max

/-- `TupleDataCollectionGrowHeapCapacity`. -/
def growHeapCapacity (layout : TupleDataLayout) (old : TupleDataCollection)
    (newRowCapacity requiredHeapBytes : Nat) : Except String Nat :=
  if old.heapCapacity = 0 then do
    let heapCapacity := defaultHeapCapacity layout newRowCapacity
    checkFlatAllocSize newRowCapacity old.rowWidth heapCapacity
    return heapCapacity
  else
    let minRequired := old.heapUsed + requiredHeapBytes
    let nextCapacity :=
      max (old.heapCapacity + max (old.heapCapacity / 2) (1024 * 1024)) minRequired
    let rowBytes := newRowCapacity * old.rowWidth
    if maxFlatAllocBytes ≤ rowBytes + headerBytes then
      .error "pg_yaap: TDC row buffer exceeds flat allocation limit"
    else
      let maxHeapCapacity := maxFlatAllocBytes - rowBytes - headerBytes
      if maxHeapCapacity < minRequired then
        .error "pg_yaap: TDC string heap exceeds flat allocation limit"
      else .ok (min (min nextCapacity maxHeapCapacity) uint32Max)

/-- `TupleDataCollectionClampRowCapacity`. A requirement among the last `headerBytes` below the
limit makes the difference wrap. -/
def clampRowCapacity (proposed rowWidth requiredHeapBytes minimum : Nat) : Except String Nat :=
  if rowWidth = 0 then .error "pg_yaap: TDC clamp received zero row width"
  else if maxFlatAllocBytes ≤ requiredHeapBytes then
    .error "pg_yaap: TDC required heap exceeds flat allocation limit"
  else
    let maxRowBytes := (2 ^ 64 + maxFlatAllocBytes - headerBytes - requiredHeapBytes) % 2 ^ 64
    let maxRows := maxRowBytes / rowWidth
    if maxRows < minimum then
      .error "pg_yaap: TDC row buffer exceeds flat allocation limit (min_rows=%u row_width=%u required_heap=%u max_rows=%llu)"
    else .ok (min proposed maxRows)

/-- `TupleDataCollectionStoreStringBytes`; `none` stands for `false`. -/
def storeStringBytes (t : TupleDataCollection) (data : List UInt8) :
    Option (TupleDataCollection × VecStringRef) :=
  let len := data.length
  if len = 0 then some (t, ⟨len, 0, stringPrefix data⟩)
  else if len ≤ 8 then some (t, ⟨len, VecStringRef.inlineOffset, stringPrefix data⟩)
  else if t.heapCapacity < t.heapUsed ∨ t.heapCapacity - t.heapUsed < len then none
  else some
    ({ t with
        heapUsed := t.heapUsed + len
        rows := t.rows.write (t.heap + t.heapUsed) data },
      ⟨len, t.heapUsed, stringPrefix data⟩)

/-- `HeapBytesNeededForStringLength`. -/
def heapBytesNeededForStringLength (len : Nat) : Nat := if 8 < len then len else 0

/-- The reference in a string column of a row. -/
def stringRef (t : TupleDataCollection) (rowIdx : Nat) (col : TdcPlacedColumn) : VecStringRef :=
  .ofBytes (t.rows.read (t.getRow rowIdx + col.offset) 16)

/-- `TupleDataCollectionRequiredHeapBytesForChunkRow`. -/
def requiredHeapBytesForChunkRow (layout : TupleDataLayout) (chunk : DataChunk) (rowIdx : Nat) :
    Nat :=
  min ((layout.columns.filter fun col => col.kind = .stringRef).map fun col =>
    heapBytesNeededForStringLength (chunk.getString col.srcColIdx rowIdx).length).sum uint32Max

/-- `TupleDataCollectionRequiredHeapBytesForRow`. -/
def requiredHeapBytesForRow (layout : TupleDataLayout) (t : TupleDataCollection) (rowIdx : Nat) :
    Nat :=
  min ((layout.columns.filter fun col => col.kind = .stringRef).map fun col =>
    heapBytesNeededForStringLength (t.stringRef rowIdx col).len).sum uint32Max

/-- `TupleDataCollectionHasSpaceForAppend`. -/
def hasSpaceForAppend (t : TupleDataCollection) (requiredHeapBytes : Nat) : Bool :=
  t.rowCount < t.rowCapacity && (requiredHeapBytes = 0 ||
    t.heapUsed ≤ t.heapCapacity && requiredHeapBytes ≤ t.heapCapacity - t.heapUsed)

/-- `TupleDataCollectionAppendRow`; `none` stands for `TDC_INVALID_ROW_INDEX`. -/
def appendRow (t : TupleDataCollection) : Option (TupleDataCollection × Nat) :=
  if t.rowCapacity ≤ t.rowCount then none
  else some ({ t with rowCount := t.rowCount + 1 }, t.rowCount)

/-! ## Codec -/

/-- The value of a column of a stored row. -/
def decodeColumn (t : TupleDataCollection) (rowIdx : Nat) (col : TdcPlacedColumn) : Datum :=
  let start := t.getRow rowIdx + col.offset
  match col.kind with
  | .int32 => .int32 (UInt32.ofNat (ByteMemory.decode (t.rows.read start 4))).toInt32
  | .int64 => .int64 (UInt64.ofNat (ByteMemory.decode (t.rows.read start 8))).toInt64
  | .double => .double (UInt64.ofNat (ByteMemory.decode (t.rows.read start 8)))
  | .stringRef => .stringRef ((t.stringRef rowIdx col).data t.rows t.heap)

/-- The values of a stored row under a layout. -/
def decodeRow (layout : TupleDataLayout) (t : TupleDataCollection) (rowIdx : Nat) : List Datum :=
  layout.columns.map (t.decodeColumn rowIdx)

/-- `memcpy` into a column of a row. -/
def writeColumn (t : TupleDataCollection) (rowIdx : Nat) (col : TdcPlacedColumn)
    (bytes : List UInt8) : TupleDataCollection :=
  { t with rows := t.rows.write (t.getRow rowIdx + col.offset) bytes }

/-- `CopyBuildRow` for one column. -/
def copyBuildColumn (src : TupleDataCollection) (srcRow dstRow : Nat) (dst : TupleDataCollection)
    (col : TdcPlacedColumn) : Except String TupleDataCollection :=
  if col.kind ≠ .stringRef then
    .ok (dst.writeColumn dstRow col (src.rows.read (src.getRow srcRow + col.offset) col.kind.width))
  else
    match dst.storeStringBytes ((src.stringRef srcRow col).data src.rows src.heap) with
    | none => .error "pg_yaap: hash join build-row copy ran out of heap"
    | some (dst, ref) => .ok (dst.writeColumn dstRow col ref.bytes)

/-- `CopyBuildRow`. -/
def copyBuildRow (layout : TupleDataLayout) (src : TupleDataCollection) (srcRow : Nat)
    (dst : TupleDataCollection) (dstRow : Nat) : Except String TupleDataCollection :=
  layout.columns.foldlM (copyBuildColumn src srcRow dstRow) dst

/-- `ScatterGroupColumns` for one column. -/
def scatterGroupColumn (chunk : DataChunk) (rowIdx dstRow : Nat) (dst : TupleDataCollection)
    (col : TdcPlacedColumn) : Except String TupleDataCollection :=
  match col.kind with
  | .int32 =>
    .ok (dst.writeColumn dstRow col
      (ByteMemory.encode 4 (chunk.getInt32 col.srcColIdx rowIdx).toUInt32.toNat))
  | .int64 =>
    .ok (dst.writeColumn dstRow col
      (ByteMemory.encode 8 (chunk.getInt64 col.srcColIdx rowIdx).toUInt64.toNat))
  | .double =>
    .ok (dst.writeColumn dstRow col
      (ByteMemory.encode 8 (chunk.getDouble col.srcColIdx rowIdx).toNat))
  | .stringRef =>
    match dst.storeStringBytes (chunk.getString col.srcColIdx rowIdx) with
    | none => .error "pg_yaap: STRING_REF row-store scatter failed"
    | some (dst, ref) => .ok (dst.writeColumn dstRow col ref.bytes)

/-- `ScatterGroupOnly` into the row store, for a layout without aggregates. -/
def scatterGroupOnly (layout : TupleDataLayout) (dst : TupleDataCollection) (dstRow : Nat)
    (chunk : DataChunk) (rowIdx : Nat) : Except String TupleDataCollection :=
  layout.columns.foldlM (scatterGroupColumn chunk rowIdx dstRow) dst

end TupleDataCollection
end PgYaap
