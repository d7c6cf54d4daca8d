import Mathlib
import PgYaap.TupleDataCollection

/-! # Rows of the row store and their values

A row holds values when every column decodes to its value and every long string
lies in a given part of the heap. Storing a column only changes the bytes of the
column and of the free heap, so the columns of a row, and the rows of a
collection, do not disturb each other. -/
namespace PgYaap

/-- The bytes a reference needs lie in the reference or between two heap offsets. -/
def VecStringRef.Within (ref : VecStringRef) (lo hi : Nat) : Prop :=
  ref.len = 0 ∨ ref.isInline = true ∨ lo ≤ ref.offset ∧ ref.offset + ref.len ≤ hi

theorem VecStringRef.Within.mono {ref : VecStringRef} {lo hi lo' hi' : Nat}
    (h : ref.Within lo hi) (hlo : lo' ≤ lo) (hhi : hi ≤ hi') : ref.Within lo' hi' := by
  rcases h with h | h | ⟨h, h'⟩
  · exact Or.inl h
  · exact Or.inr (Or.inl h)
  · exact Or.inr (Or.inr ⟨by omega, by omega⟩)

/-- A reference only depends on the heap bytes it needs. -/
theorem VecStringRef.data_congr {ref : VecStringRef} {m m' : ByteMemory} {heap lo hi : Nat}
    (h : ref.Within lo hi) (hsame : ∀ a, heap + lo ≤ a → a < heap + hi → m' a = m a) :
    ref.data m' heap = ref.data m heap := by
  unfold VecStringRef.data
  by_cases hlen : ref.len = 0
  · rw [if_pos hlen, if_pos hlen]
  · by_cases hin : ref.isInline = true
    · rw [if_neg hlen, if_neg hlen, if_pos hin, if_pos hin]
    · rw [if_neg hlen, if_neg hlen, if_neg hin, if_neg hin]
      obtain ⟨hlo, hhi⟩ := (h.resolve_left hlen).resolve_left hin
      exact ByteMemory.read_congr fun a ha hb => hsame a (by omega) (by omega)

namespace TupleDataCollection

/-! ## Values at a place -/

/-- A column of a row decodes to a value, with its string between two heap offsets. -/
structure ColumnAt (t : TupleDataCollection) (rowIdx : Nat) (col : TdcPlacedColumn) (v : Datum)
    (lo hi : Nat) : Prop where
  value : t.decodeColumn rowIdx col = v
  within : col.kind = .stringRef → (t.stringRef rowIdx col).Within lo hi

/-- A row holds values under a layout, with its strings between two heap offsets. -/
def RowAt (layout : TupleDataLayout) (t : TupleDataCollection) (rowIdx : Nat) (values : List Datum)
    (lo hi : Nat) : Prop :=
  List.Forall₂ (fun col v => ColumnAt t rowIdx col v lo hi) layout.columns values

section Place
variable {t t' : TupleDataCollection} {rowIdx lo hi lo' hi' : Nat} {col : TdcPlacedColumn}
  {v : Datum} {layout : TupleDataLayout} {values : List Datum}

theorem ColumnAt.mono (h : ColumnAt t rowIdx col v lo hi) (hlo : lo' ≤ lo) (hhi : hi ≤ hi') :
    ColumnAt t rowIdx col v lo' hi' :=
  ⟨h.value, fun hk => (h.within hk).mono hlo hhi⟩

theorem RowAt.mono (h : RowAt layout t rowIdx values lo hi) (hlo : lo' ≤ lo) (hhi : hi ≤ hi') :
    RowAt layout t rowIdx values lo' hi' :=
  h.imp fun _ _ hc => hc.mono hlo hhi

/-- What a column decodes to, from its bytes and from the string of a reference. -/
theorem decodeColumn_eq (h : t'.rows.read (t'.getRow rowIdx + col.offset) col.kind.width =
      t.rows.read (t.getRow rowIdx + col.offset) col.kind.width)
    (href : col.kind = .stringRef → (t'.stringRef rowIdx col).data t'.rows t'.heap =
      (t.stringRef rowIdx col).data t.rows t.heap) :
    t'.decodeColumn rowIdx col = t.decodeColumn rowIdx col := by
  unfold decodeColumn
  cases hk : col.kind with
  | stringRef => rw [hk] at href; simp only [href rfl]
  | int32 | int64 | double =>
    rw [hk] at h
    simp only [TdcColumnKind.width] at h
    simp only [h]

/-- **A column is not disturbed** by changes away from its bytes and its string. -/
theorem ColumnAt.frame (h : ColumnAt t rowIdx col v lo hi) (hwidth : t'.rowWidth = t.rowWidth)
    (hcapacity : t'.rowCapacity = t.rowCapacity)
    (hrow : ∀ a, t.getRow rowIdx + col.offset ≤ a → a < t.getRow rowIdx + col.stop →
      t'.rows a = t.rows a)
    (hheap : ∀ a, t.heap + lo ≤ a → a < t.heap + hi → t'.rows a = t.rows a) :
    ColumnAt t' rowIdx col v lo hi := by
  have hstart : t'.getRow rowIdx = t.getRow rowIdx := by rw [getRow, hwidth, getRow]
  have hbase : t'.heap = t.heap := by rw [heap, hwidth, hcapacity, heap]
  have hread : t'.rows.read (t'.getRow rowIdx + col.offset) col.kind.width =
      t.rows.read (t.getRow rowIdx + col.offset) col.kind.width := by
    rw [hstart]
    refine ByteMemory.read_congr fun a ha hb => hrow a ha ?_
    rw [TdcPlacedColumn.stop]
    omega
  have href : col.kind = .stringRef → t'.stringRef rowIdx col = t.stringRef rowIdx col := by
    intro hk
    rw [hk] at hread
    exact congrArg VecStringRef.ofBytes hread
  constructor
  · rw [← h.value]
    refine decodeColumn_eq hread fun hk => ?_
    rw [href hk, hbase]
    exact VecStringRef.data_congr (h.within hk) hheap
  · intro hk
    rw [href hk]
    exact h.within hk

theorem RowAt.decodeRow (h : RowAt layout t rowIdx values lo hi) :
    TupleDataCollection.decodeRow layout t rowIdx = values := by
  unfold RowAt at h
  unfold TupleDataCollection.decodeRow
  generalize layout.columns = cols at h ⊢
  induction h with
  | nil => rfl
  | cons hc _ ih => rw [List.map_cons, hc.value, ih]

/-- **A row is not disturbed** by changes away from its bytes and its strings. -/
theorem RowAt.frame (h : RowAt layout t rowIdx values lo hi) (hwidth : t'.rowWidth = t.rowWidth)
    (hcapacity : t'.rowCapacity = t.rowCapacity)
    (hrow : ∀ a, t.getRow rowIdx ≤ a → a < t.getRow rowIdx + layout.rowWidth →
      t'.rows a = t.rows a)
    (hheap : ∀ a, t.heap + lo ≤ a → a < t.heap + hi → t'.rows a = t.rows a) :
    RowAt layout t' rowIdx values lo hi := by
  have hall : List.Forall₂ (fun c w => c ∈ layout.columns ∧ ColumnAt t rowIdx c w lo hi)
      layout.columns values := (List.forall₂_and_left _ _).mpr ⟨fun _ hc => hc, h⟩
  refine hall.imp fun c w hw => hw.2.frame hwidth hcapacity (fun a ha hb => ?_) hheap
  have hin := layout.placed.mem hw.1
  exact hrow a (by omega) (by omega)

end Place

/-! ## Storing a column -/

/-- A change of one row, between two offsets, and of the free heap. -/
structure Extended (t t' : TupleDataCollection) (rowIdx start stop : Nat) : Prop where
  rowWidth : t'.rowWidth = t.rowWidth
  rowCapacity : t'.rowCapacity = t.rowCapacity
  rowCount : t'.rowCount = t.rowCount
  heapCapacity : t'.heapCapacity = t.heapCapacity
  heapUsed : t.heapUsed ≤ t'.heapUsed
  heap_le : t'.heapUsed ≤ t'.heapCapacity
  same : ∀ a, a < t.getRow rowIdx + start ∨ t.getRow rowIdx + stop ≤ a →
    a < t.heap + t.heapUsed ∨ t.heap + t'.heapUsed ≤ a → t'.rows a = t.rows a

section Store
variable {t t' t'' dst dst' : TupleDataCollection} {rowIdx start mid stop : Nat}
  {col : TdcPlacedColumn} {v : Datum} {data : List UInt8} {ref : VecStringRef}

theorem Extended.getRow (h : Extended t t' rowIdx start stop) (r : Nat) :
    t'.getRow r = t.getRow r := by
  rw [TupleDataCollection.getRow, h.rowWidth, TupleDataCollection.getRow]

theorem Extended.heap (h : Extended t t' rowIdx start stop) : t'.heap = t.heap := by
  rw [TupleDataCollection.heap, h.rowWidth, h.rowCapacity, TupleDataCollection.heap]

theorem Extended.trans (h : Extended t t' rowIdx start mid) (h' : Extended t' t'' rowIdx mid stop)
    (hle : start ≤ mid) (hle' : mid ≤ stop) : Extended t t'' rowIdx start stop where
  rowWidth := h'.rowWidth.trans h.rowWidth
  rowCapacity := h'.rowCapacity.trans h.rowCapacity
  rowCount := h'.rowCount.trans h.rowCount
  heapCapacity := h'.heapCapacity.trans h.heapCapacity
  heapUsed := Nat.le_trans h.heapUsed h'.heapUsed
  heap_le := h'.heap_le
  same := by
    intro a ha hb
    have hrow := h.getRow rowIdx
    have hheap := h.heap
    have hused := h.heapUsed
    have hused' := h'.heapUsed
    rw [h'.same a (by omega) (by omega), h.same a (by omega) (by omega)]

theorem Extended.refl (hle : t.heapUsed ≤ t.heapCapacity) : Extended t t rowIdx start start :=
  ⟨rfl, rfl, rfl, rfl, Nat.le_refl _, hle, fun _ _ _ => rfl⟩

/-- What storing a value in a column comes to. -/
structure Stored (t t' : TupleDataCollection) (rowIdx : Nat) (col : TdcPlacedColumn) (v : Datum) :
    Prop where
  extended : Extended t t' rowIdx col.offset col.stop
  column : ColumnAt t' rowIdx col v 0 t'.heapUsed

/-- A fixed-width column: the bytes that are written are those that are decoded. -/
theorem stored_writeColumn (hkind : col.kind ≠ .stringRef) {bytes : List UInt8}
    (hbytes : bytes.length = col.kind.width) (hfit : t.heapUsed ≤ t.heapCapacity)
    (hv : (t.writeColumn rowIdx col bytes).decodeColumn rowIdx col = v) :
    Stored t (t.writeColumn rowIdx col bytes) rowIdx col v := by
  refine ⟨⟨rfl, rfl, rfl, rfl, Nat.le_refl _, hfit, fun a ha _ => ?_⟩, hv,
    fun hk => absurd hk hkind⟩
  rw [TdcPlacedColumn.stop, ← hbytes] at ha
  rcases ha with ha | ha
  · exact ByteMemory.write_of_lt ha
  · exact ByteMemory.write_of_ge (by omega)

theorem length_stringPrefix (bs : List UInt8) : (stringPrefix bs).length = 8 := by
  rw [stringPrefix, List.length_append, List.length_take, List.length_replicate]
  omega

theorem take_stringPrefix {bs : List UInt8} (h : bs.length ≤ 8) :
    (stringPrefix bs).take bs.length = bs := by
  rw [stringPrefix, List.take_of_length_le h, List.take_left' rfl]

/-- What `StoreStringBytes` gives: a reference to the string, and new heap bytes only. -/
structure StringStored (t t' : TupleDataCollection) (ref : VecStringRef) (data : List UInt8) :
    Prop where
  rowWidth : t'.rowWidth = t.rowWidth
  rowCapacity : t'.rowCapacity = t.rowCapacity
  rowCount : t'.rowCount = t.rowCount
  heapCapacity : t'.heapCapacity = t.heapCapacity
  heapUsed : t.heapUsed ≤ t'.heapUsed
  heap_le : t'.heapUsed ≤ t'.heapCapacity
  same : ∀ a, a < t.heap + t.heapUsed ∨ t.heap + t'.heapUsed ≤ a → t'.rows a = t.rows a
  ref_data : ref.data t'.rows t'.heap = data
  ref_within : ref.Within 0 t'.heapUsed
  ref_bytes : VecStringRef.ofBytes ref.bytes = ref
  ref_length : ref.bytes.length = 16

/-- **`StoreStringBytes`** keeps the string, in the reference or in the heap. -/
theorem storeStringBytes_stored (hfit : t.heapUsed ≤ t.heapCapacity)
    (hcapacity : t.heapCapacity < 2 ^ 32) (h : t.storeStringBytes data = some (t', ref)) :
    StringStored t t' ref data := by
  unfold storeStringBytes at h
  dsimp only at h
  by_cases h0 : data.length = 0
  · rw [if_pos h0, Option.some.injEq, Prod.mk.injEq] at h
    obtain ⟨rfl, rfl⟩ := h
    have hnil : data = [] := List.length_eq_zero_iff.mp h0
    subst hnil
    exact
      { rowWidth := rfl, rowCapacity := rfl, rowCount := rfl, heapCapacity := rfl
        heapUsed := Nat.le_refl _
        heap_le := hfit
        same := fun _ _ => rfl
        ref_data := rfl
        ref_within := Or.inl rfl
        ref_bytes := rfl
        ref_length := rfl }
  · by_cases h8 : data.length ≤ 8
    · rw [if_neg h0, if_pos h8, Option.some.injEq, Prod.mk.injEq] at h
      obtain ⟨rfl, rfl⟩ := h
      have hinline : VecStringRef.isInline
          ⟨data.length, VecStringRef.inlineOffset, stringPrefix data⟩ = true := by
        simp only [VecStringRef.isInline, Bool.and_eq_true, decide_eq_true_eq]
        exact ⟨⟨by omega, h8⟩, trivial⟩
      exact
        { rowWidth := rfl, rowCapacity := rfl, rowCount := rfl, heapCapacity := rfl
          heapUsed := Nat.le_refl _
          heap_le := hfit
          same := fun _ _ => rfl
          ref_data := by
            unfold VecStringRef.data
            rw [if_neg h0, if_pos hinline]
            exact take_stringPrefix h8
          ref_within := Or.inr (Or.inl hinline)
          ref_bytes := VecStringRef.ofBytes_bytes (show data.length < 2 ^ 32 by omega)
            (show uint32Max < 2 ^ 32 by decide)
          ref_length := VecStringRef.length_bytes (length_stringPrefix data) }
    · rw [if_neg h0, if_neg h8] at h
      split at h
      · cases h
      · rename_i hroom
        rw [Option.some.injEq, Prod.mk.injEq] at h
        obtain ⟨rfl, rfl⟩ := h
        have hinline : VecStringRef.isInline ⟨data.length, t.heapUsed, stringPrefix data⟩ =
            false := by
          simp only [VecStringRef.isInline, Bool.and_eq_false_iff, decide_eq_false_iff_not]
          exact Or.inl (Or.inr h8)
        exact
          { rowWidth := rfl, rowCapacity := rfl, rowCount := rfl, heapCapacity := rfl
            heapUsed := Nat.le_add_right _ _
            heap_le := by dsimp only; omega
            same := fun a ha => by
              rcases ha with ha | ha
              · exact ByteMemory.write_of_lt ha
              · exact ByteMemory.write_of_ge (by dsimp only at ha; omega)
            ref_data := by
              unfold VecStringRef.data
              rw [if_neg h0, hinline, if_neg (by decide)]
              exact ByteMemory.read_write
            ref_within := Or.inr (Or.inr ⟨Nat.zero_le _, Nat.le_refl _⟩)
            ref_bytes := VecStringRef.ofBytes_bytes (show data.length < 2 ^ 32 by omega)
              (show t.heapUsed < 2 ^ 32 by omega)
            ref_length := VecStringRef.length_bytes (length_stringPrefix data) }

/-- A string column: the reference goes into the row, which lies before the heap. -/
theorem StringStored.writeColumn (h : StringStored t t' ref data) (hkind : col.kind = .stringRef)
    (hroom : t.getRow rowIdx + col.stop ≤ t.heap) :
    Stored t (t'.writeColumn rowIdx col ref.bytes) rowIdx col (.stringRef data) := by
  have hrow : t'.getRow rowIdx = t.getRow rowIdx := by
    rw [TupleDataCollection.getRow, h.rowWidth, TupleDataCollection.getRow]
  have hheap : t'.heap = t.heap := by
    rw [TupleDataCollection.heap, h.rowWidth, h.rowCapacity, TupleDataCollection.heap]
  have hstop : col.stop = col.offset + 16 := by rw [TdcPlacedColumn.stop, hkind]; rfl
  have hlength := h.ref_length
  have href : (t'.writeColumn rowIdx col ref.bytes).stringRef rowIdx col = ref := by
    have hread : (t'.writeColumn rowIdx col ref.bytes).rows.read
        ((t'.writeColumn rowIdx col ref.bytes).getRow rowIdx + col.offset) 16 = ref.bytes :=
      ByteMemory.read_write_of_length hlength
    rw [stringRef, hread, h.ref_bytes]
  have hdata : ref.data (t'.writeColumn rowIdx col ref.bytes).rows t'.heap = data := by
    rw [← h.ref_data]
    refine VecStringRef.data_congr h.ref_within fun a ha _ => ByteMemory.write_of_ge ?_
    omega
  constructor
  · refine ⟨h.rowWidth, h.rowCapacity, h.rowCount, h.heapCapacity, h.heapUsed, h.heap_le, ?_⟩
    intro a ha hb
    have hwrite : (t'.writeColumn rowIdx col ref.bytes).rows a = t'.rows a := by
      rcases ha with ha | ha
      · exact ByteMemory.write_of_lt (by omega)
      · exact ByteMemory.write_of_ge (by omega)
    rw [hwrite]
    exact h.same a hb
  · constructor
    · have hdecode : (t'.writeColumn rowIdx col ref.bytes).decodeColumn rowIdx col =
          .stringRef (((t'.writeColumn rowIdx col ref.bytes).stringRef rowIdx col).data
            (t'.writeColumn rowIdx col ref.bytes).rows t'.heap) := by
        rw [decodeColumn, hkind]
        rfl
      rw [hdecode, href, hdata]
    · intro _
      rw [href]
      exact h.ref_within

/-- The bytes of a fixed-width column after a write into it. -/
theorem read_writeColumn (t : TupleDataCollection) (rowIdx : Nat) (col : TdcPlacedColumn)
    (bytes : List UInt8) :
    (t.writeColumn rowIdx col bytes).rows.read
      ((t.writeColumn rowIdx col bytes).getRow rowIdx + col.offset) bytes.length = bytes :=
  ByteMemory.read_write

/-- **`CopyBuildRow`, one column.** -/
theorem copyBuildColumn_stored {src : TupleDataCollection} {srcRow : Nat}
    (hfit : dst.heapUsed ≤ dst.heapCapacity) (hcapacity : dst.heapCapacity < 2 ^ 32)
    (hroom : dst.getRow rowIdx + col.stop ≤ dst.heap)
    (h : copyBuildColumn src srcRow rowIdx dst col = .ok dst') :
    Stored dst dst' rowIdx col (src.decodeColumn srcRow col) := by
  unfold copyBuildColumn at h
  by_cases hkind : col.kind = .stringRef
  · rw [if_neg (not_not.mpr hkind)] at h
    split at h
    · cases h
    · rename_i mid ref hstore
      rw [Except.ok.injEq] at h
      subst h
      have hstored := storeStringBytes_stored hfit hcapacity hstore
      have hvalue : src.decodeColumn srcRow col =
          .stringRef ((src.stringRef srcRow col).data src.rows src.heap) := by
        rw [decodeColumn, hkind]
      rw [hvalue]
      exact hstored.writeColumn hkind hroom
  · rw [if_pos hkind, Except.ok.injEq] at h
    subst h
    refine stored_writeColumn hkind (by simp) hfit ?_
    have hread := read_writeColumn dst rowIdx col
      (src.rows.read (src.getRow srcRow + col.offset) col.kind.width)
    rw [ByteMemory.length_read] at hread
    unfold decodeColumn
    cases hk : col.kind with
    | stringRef => exact absurd hk hkind
    | int32 | int64 | double =>
      rw [hk] at hread
      simp only [TdcColumnKind.width] at hread ⊢
      rw [hread]

theorem int32_decode (v : Int32) :
    (UInt32.ofNat (ByteMemory.decode (ByteMemory.encode 4 v.toUInt32.toNat))).toInt32 = v := by
  rw [ByteMemory.decode_encode_of_lt v.toUInt32.toNat_lt, UInt32.ofNat_toNat]
  rfl

theorem uint64_decode (v : UInt64) :
    UInt64.ofNat (ByteMemory.decode (ByteMemory.encode 8 v.toNat)) = v := by
  rw [ByteMemory.decode_encode_of_lt v.toNat_lt, UInt64.ofNat_toNat]

/-- **`ScatterGroupColumns`, one column.** -/
theorem scatterGroupColumn_stored {chunk : DataChunk} {chunkRow : Nat}
    (hfit : dst.heapUsed ≤ dst.heapCapacity) (hcapacity : dst.heapCapacity < 2 ^ 32)
    (hroom : dst.getRow rowIdx + col.stop ≤ dst.heap)
    (h : scatterGroupColumn chunk chunkRow rowIdx dst col = .ok dst') :
    Stored dst dst' rowIdx col (chunk.get col.kind col.srcColIdx chunkRow) := by
  unfold scatterGroupColumn at h
  cases hk : col.kind with
  | int32 =>
    rw [hk] at h
    obtain rfl := Except.ok.inj h
    refine stored_writeColumn (by rw [hk]; decide) (by rw [hk]; simp [TdcColumnKind.width]) hfit ?_
    have hread := read_writeColumn dst rowIdx col
      (ByteMemory.encode 4 (chunk.getInt32 col.srcColIdx chunkRow).toUInt32.toNat)
    rw [ByteMemory.length_encode] at hread
    simp only [decodeColumn, hk, hread, int32_decode, DataChunk.get]
  | int64 =>
    rw [hk] at h
    obtain rfl := Except.ok.inj h
    refine stored_writeColumn (by rw [hk]; decide) (by rw [hk]; simp [TdcColumnKind.width]) hfit ?_
    have hread := read_writeColumn dst rowIdx col
      (ByteMemory.encode 8 (chunk.getInt64 col.srcColIdx chunkRow).toUInt64.toNat)
    rw [ByteMemory.length_encode] at hread
    simp only [decodeColumn, hk, hread, uint64_decode, DataChunk.get]
    rfl
  | double =>
    rw [hk] at h
    obtain rfl := Except.ok.inj h
    refine stored_writeColumn (by rw [hk]; decide) (by rw [hk]; simp [TdcColumnKind.width]) hfit ?_
    have hread := read_writeColumn dst rowIdx col
      (ByteMemory.encode 8 (chunk.getDouble col.srcColIdx chunkRow).toNat)
    rw [ByteMemory.length_encode] at hread
    simp only [decodeColumn, hk, hread, uint64_decode, DataChunk.get]
  | stringRef =>
    rw [hk] at h
    dsimp only at h
    split at h
    · cases h
    · rename_i mid ref hstore
      obtain rfl := Except.ok.inj h
      have hstored := storeStringBytes_stored hfit hcapacity hstore
      exact hstored.writeColumn hk hroom

end Store

/-! ## Storing a row -/

section Rows
variable {t dst dst' : TupleDataCollection} {rowIdx : Nat} {layout : TupleDataLayout}

/-- **A loop over the columns of a row** whose turns each store a value leaves the
row with all of them. -/
theorem storeColumns
    {store : TupleDataCollection → TdcPlacedColumn → Except String TupleDataCollection}
    {value : TdcPlacedColumn → Datum}
    (hstore : ∀ (dst dst' : TupleDataCollection) col, dst.heapUsed ≤ dst.heapCapacity →
      dst.heapCapacity < 2 ^ 32 → dst.getRow rowIdx + col.stop ≤ dst.heap →
      store dst col = .ok dst' → Stored dst dst' rowIdx col (value col))
    {cols : List TdcPlacedColumn} {start stop : Nat} (hplaced : Placed start cols stop)
    (hfit : dst.heapUsed ≤ dst.heapCapacity) (hcapacity : dst.heapCapacity < 2 ^ 32)
    (hroom : dst.getRow rowIdx + stop ≤ dst.heap) (h : cols.foldlM store dst = .ok dst') :
    Extended dst dst' rowIdx start stop ∧
      List.Forall₂ (fun col v => ColumnAt dst' rowIdx col v 0 dst'.heapUsed) cols
        (cols.map value) := by
  induction cols generalizing dst start with
  | nil =>
    obtain rfl := Except.ok.inj h
    refine ⟨⟨rfl, rfl, rfl, rfl, Nat.le_refl _, hfit, fun _ _ _ => rfl⟩, .nil⟩
  | cons col cols ih =>
    rw [List.foldlM_cons] at h
    cases hcol : store dst col with
    | error e =>
      rw [hcol] at h
      cases h
    | ok mid =>
      rw [hcol] at h
      have hle := hplaced.2.le
      have hstored := hstore dst mid col hfit hcapacity (by omega) hcol
      have hext := hstored.extended
      have hrest := ih hplaced.2 hext.heap_le (by rw [hext.heapCapacity]; exact hcapacity)
        (by rw [hext.getRow, hext.heap]; exact hroom) h
      have hcolstop : col.offset ≤ col.stop := Nat.le_add_right _ _
      have hstart := hplaced.1
      constructor
      · refine ⟨hrest.1.rowWidth.trans hext.rowWidth, hrest.1.rowCapacity.trans hext.rowCapacity,
          hrest.1.rowCount.trans hext.rowCount, hrest.1.heapCapacity.trans hext.heapCapacity,
          Nat.le_trans hext.heapUsed hrest.1.heapUsed, hrest.1.heap_le, fun a ha hb => ?_⟩
        exact (hext.trans hrest.1 hcolstop hle).same a (by omega) hb
      · refine .cons ?_ hrest.2
        -- the columns after this one leave its bytes and its string alone
        refine (hstored.column.frame hrest.1.rowWidth hrest.1.rowCapacity (fun a ha hb => ?_)
          (fun a ha hb => ?_)).mono (Nat.le_refl _) hrest.1.heapUsed
        · have hheap := hext.heap
          have hgetRow := hext.getRow rowIdx
          exact hrest.1.same a (Or.inl (by omega)) (Or.inl (by omega))
        · have hheap := hext.heap
          have hgetRow := hext.getRow rowIdx
          exact hrest.1.same a (Or.inr (by omega)) (Or.inl (by omega))

/-- A collection holds rows under a layout. -/
structure Holds (layout : TupleDataLayout) (t : TupleDataCollection) (rows : List (List Datum)) :
    Prop where
  rowWidth : t.rowWidth = layout.rowWidth
  rowCount : t.rowCount = rows.length
  count_le : t.rowCount ≤ t.rowCapacity
  heap_le : t.heapUsed ≤ t.heapCapacity
  heap_lt : t.heapCapacity < 2 ^ 32
  row : ∀ (r : Nat) (values : List Datum), rows[r]? = some values →
    RowAt layout t r values 0 t.heapUsed

/-- The values of the rows of a collection. -/
def storedRows (layout : TupleDataLayout) (t : TupleDataCollection) : List (List Datum) :=
  (List.range t.rowCount).map (t.decodeRow layout)

theorem Holds.storedRows {rows : List (List Datum)} (h : Holds layout t rows) :
    t.storedRows layout = rows := by
  have hlen : (t.storedRows layout).length = rows.length := by
    rw [TupleDataCollection.storedRows, List.length_map, List.length_range, h.rowCount]
  refine List.ext_getElem hlen fun r hr hr' => ?_
  have hrow := (h.row r rows[r] (List.getElem?_eq_getElem hr')).decodeRow
  simp only [TupleDataCollection.storedRows, List.getElem_map, List.getElem_range]
  exact hrow

/-- A row ends before the next one begins. -/
theorem getRow_le {r r' : Nat} (h : r < r') : t.getRow r + t.rowWidth ≤ t.getRow r' := by
  have hle : (r + 1) * t.rowWidth ≤ r' * t.rowWidth := Nat.mul_le_mul_right _ h
  rw [Nat.succ_mul] at hle
  exact hle

/-- The rows end before the heap begins. -/
theorem getRow_le_heap {r : Nat} (h : r < t.rowCapacity) : t.getRow r + t.rowWidth ≤ t.heap :=
  getRow_le h

/-- **Appending a row**: whatever stores the values, the rows before stay. -/
theorem Holds.append {rows : List (List Datum)} (h : Holds layout t rows)
    (happ : t.appendRow = some (dst, rowIdx))
    {store : TupleDataCollection → TdcPlacedColumn → Except String TupleDataCollection}
    {value : TdcPlacedColumn → Datum}
    (hstore : ∀ (dst dst' : TupleDataCollection) col, dst.heapUsed ≤ dst.heapCapacity →
      dst.heapCapacity < 2 ^ 32 → dst.getRow rowIdx + col.stop ≤ dst.heap →
      store dst col = .ok dst' → Stored dst dst' rowIdx col (value col))
    (hok : layout.columns.foldlM store dst = .ok dst') :
    Holds layout dst' (rows ++ [layout.columns.map value]) := by
  unfold appendRow at happ
  split at happ
  · cases happ
  · rename_i hroom
    rw [Option.some.injEq, Prod.mk.injEq] at happ
    obtain ⟨rfl, rfl⟩ := happ
    have hend : t.getRow t.rowCount + t.rowWidth ≤ t.heap := getRow_le_heap (by omega)
    rw [h.rowWidth] at hend
    have hfit : TupleDataCollection.heapUsed { t with rowCount := t.rowCount + 1 } ≤
        t.heapCapacity := h.heap_le
    have hall := storeColumns hstore layout.placed hfit h.heap_lt hend hok
    have hext := hall.1
    have hsame : ∀ a, a < t.getRow t.rowCount ∨ t.getRow t.rowCount + layout.rowWidth ≤ a →
        a < t.heap + t.heapUsed ∨ t.heap + dst'.heapUsed ≤ a → dst'.rows a = t.rows a :=
      fun a ha hb => hext.same a ha hb
    refine ⟨hext.rowWidth.trans h.rowWidth, ?_, ?_, hext.heap_le, ?_, fun r values hr => ?_⟩
    · rw [hext.rowCount, List.length_append, List.length_singleton, ← h.rowCount]
    · rw [hext.rowCount, hext.rowCapacity]
      exact Nat.lt_of_not_le hroom
    · rw [hext.heapCapacity]
      exact h.heap_lt
    · rcases Nat.lt_or_ge r rows.length with hlt | hge
      · rw [List.getElem?_append_left hlt] at hr
        have hcount := h.rowCount
        have hbefore : t.getRow r + t.rowWidth ≤ t.getRow t.rowCount := getRow_le (by omega)
        rw [h.rowWidth] at hbefore
        refine ((h.row r values hr).frame hext.rowWidth hext.rowCapacity (fun a ha hb => ?_)
          (fun a ha hb => ?_)).mono (Nat.le_refl _) hext.heapUsed
        · exact hsame a (Or.inl (by omega)) (Or.inl (by omega))
        · exact hsame a (Or.inr (by omega)) (Or.inl (by omega))
      · have hrow : r = rows.length := by
          have hlt := (List.getElem?_eq_some_iff.mp hr).1
          rw [List.length_append, List.length_singleton] at hlt
          omega
        subst hrow
        rw [List.getElem?_concat_length, Option.some.injEq] at hr
        subst hr
        rw [← h.rowCount]
        exact hall.2

/-- Appending a copy of a stored row. -/
theorem Holds.append_copy {rows : List (List Datum)} (h : Holds layout t rows)
    (happ : t.appendRow = some (dst, rowIdx)) {src : TupleDataCollection} {srcRow : Nat}
    (hok : copyBuildRow layout src srcRow dst rowIdx = .ok dst') :
    Holds layout dst' (rows ++ [src.decodeRow layout srcRow]) :=
  h.append happ (fun _ _ _ hfit hcapacity hroom hstep =>
    copyBuildColumn_stored hfit hcapacity hroom hstep) hok

/-- **Appending a chunk row** stores the values the chunk has in the layout's columns. -/
theorem Holds.append_scatter {rows : List (List Datum)} (h : Holds layout t rows)
    (happ : t.appendRow = some (dst, rowIdx)) {chunk : DataChunk} {chunkRow : Nat}
    (hok : scatterGroupOnly layout dst rowIdx chunk chunkRow = .ok dst') :
    Holds layout dst' (rows ++ [scatterGroupColumns layout.descs chunk chunkRow]) := by
  have hall := h.append happ (fun _ _ _ hfit hcapacity hroom hstep =>
    scatterGroupColumn_stored hfit hcapacity hroom hstep) hok
  rw [scatterGroupColumns, DataChunk.groupColumns, TupleDataLayout.descs, List.map_map]
  exact hall

/-- A new collection holds no rows. -/
theorem allocate_holds {rowCapacity heapCapacity : Nat} (hcapacity : heapCapacity < 2 ^ 32)
    (h : allocate rowCapacity layout.rowWidth heapCapacity = .ok t) :
    Holds layout t [] ∧ t.rowCapacity = rowCapacity ∧ t.heapCapacity = heapCapacity ∧
      t.heapUsed = 0 := by
  unfold allocate at h
  cases hcheck : checkFlatAllocSize rowCapacity layout.rowWidth heapCapacity with
  | error e =>
    rw [hcheck] at h
    cases h
  | ok u =>
    rw [hcheck] at h
    obtain rfl := Except.ok.inj h
    exact ⟨⟨rfl, rfl, Nat.zero_le _, Nat.zero_le _, hcapacity, fun _ _ hr => by cases hr⟩,
      rfl, rfl, rfl⟩

end Rows

/-! ## The heap a row needs -/

/-- The heap bytes of a value: those of a string that does not go into its reference. -/
def valueHeapBytes : Datum → Nat
  | .stringRef bytes => heapBytesNeededForStringLength bytes.length
  | _ => 0

/-- The heap bytes of a row. -/
def rowHeapBytes (row : List Datum) : Nat := (row.map valueHeapBytes).sum

section HeapBytes
variable {t t' src dst dst' : TupleDataCollection} {rowIdx srcRow dstRow : Nat}
  {col : TdcPlacedColumn} {layout : TupleDataLayout} {data : List UInt8} {ref : VecStringRef}

/-- A store of a string changes the heap, and nothing else. -/
theorem storeStringBytes_eq (h : t.storeStringBytes data = some (t', ref)) :
    ∃ rows, t' = { t with
      heapUsed := t.heapUsed + heapBytesNeededForStringLength data.length
      rows := rows } := by
  unfold storeStringBytes at h
  dsimp only at h
  unfold heapBytesNeededForStringLength
  by_cases h0 : data.length = 0
  · rw [if_pos h0, Option.some.injEq, Prod.mk.injEq] at h
    rw [if_neg (by omega)]
    exact ⟨t.rows, h.1.symm⟩
  · by_cases h8 : data.length ≤ 8
    · rw [if_neg h0, if_pos h8, Option.some.injEq, Prod.mk.injEq] at h
      rw [if_neg (by omega)]
      exact ⟨t.rows, h.1.symm⟩
    · rw [if_neg h0, if_neg h8] at h
      split at h
      · cases h
      · rw [Option.some.injEq, Prod.mk.injEq] at h
        rw [if_pos (by omega)]
        exact ⟨_, h.1.symm⟩

/-- A string that the heap has room for is stored. -/
theorem storeStringBytes_of_fits
    (h : t.heapUsed + heapBytesNeededForStringLength data.length ≤ t.heapCapacity) :
    ∃ t' ref, t.storeStringBytes data = some (t', ref) := by
  unfold storeStringBytes
  unfold heapBytesNeededForStringLength at h
  dsimp only
  split
  · exact ⟨_, _, rfl⟩
  split
  · exact ⟨_, _, rfl⟩
  · rw [if_pos (by omega)] at h
    rw [if_neg (by omega)]
    exact ⟨_, _, rfl⟩

theorem length_data (t : TupleDataCollection) (rowIdx : Nat) (col : TdcPlacedColumn)
    (m : ByteMemory) (heap : Nat) :
    ((t.stringRef rowIdx col).data m heap).length = (t.stringRef rowIdx col).len := by
  unfold VecStringRef.data
  split
  · rename_i h0
    rw [h0]
    rfl
  split
  · rename_i hinline
    have hlen : (t.stringRef rowIdx col).len ≤ 8 := by
      simp only [VecStringRef.isInline, Bool.and_eq_true, decide_eq_true_eq] at hinline
      exact hinline.1.2
    have hbytes : (t.stringRef rowIdx col).prefixBytes.length = 8 := by
      unfold stringRef VecStringRef.ofBytes
      simp
    rw [List.length_take, hbytes]
    omega
  · exact ByteMemory.length_read

theorem valueHeapBytes_of_fixed (hkind : col.kind ≠ .stringRef) :
    valueHeapBytes (t.decodeColumn rowIdx col) = 0 := by
  unfold decodeColumn
  cases hk : col.kind with
  | stringRef => exact absurd hk hkind
  | int32 | int64 | double => rfl

theorem valueHeapBytes_of_string (hkind : col.kind = .stringRef) :
    valueHeapBytes (t.decodeColumn rowIdx col) =
      heapBytesNeededForStringLength (t.stringRef rowIdx col).len := by
  unfold decodeColumn
  rw [hkind]
  show heapBytesNeededForStringLength (VecStringRef.data _ _ _).length = _
  rw [length_data]

/-- **What a row requires** is what its values need. -/
theorem requiredHeapBytesForRow_eq (layout : TupleDataLayout) (t : TupleDataCollection)
    (rowIdx : Nat) :
    requiredHeapBytesForRow layout t rowIdx =
      min (rowHeapBytes (t.decodeRow layout rowIdx)) uint32Max := by
  unfold requiredHeapBytesForRow rowHeapBytes decodeRow
  congr 1
  induction layout.columns with
  | nil => rfl
  | cons col cols ih =>
    rw [List.map_cons, List.map_cons, List.sum_cons, ← ih]
    by_cases hkind : col.kind = .stringRef
    · rw [List.filter_cons_of_pos (by simpa using hkind), List.map_cons, List.sum_cons,
        valueHeapBytes_of_string hkind]
    · rw [List.filter_cons_of_neg (by simpa using hkind), valueHeapBytes_of_fixed hkind,
        Nat.zero_add]

theorem copyBuildColumn_eq (h : copyBuildColumn src srcRow dstRow dst col = .ok dst') :
    ∃ rows, dst' = { dst with
      heapUsed := dst.heapUsed + valueHeapBytes (src.decodeColumn srcRow col)
      rows := rows } := by
  unfold copyBuildColumn at h
  by_cases hkind : col.kind = .stringRef
  · rw [if_neg (not_not.mpr hkind)] at h
    split at h
    · cases h
    · rename_i mid ref hstore
      obtain ⟨rows, hmid⟩ := storeStringBytes_eq hstore
      rw [length_data, ← valueHeapBytes_of_string hkind] at hmid
      obtain rfl := Except.ok.inj h
      rw [hmid]
      exact ⟨_, rfl⟩
  · rw [if_pos hkind] at h
    obtain rfl := Except.ok.inj h
    rw [valueHeapBytes_of_fixed hkind]
    exact ⟨_, rfl⟩

/-- **A copied row** takes the heap bytes of its values, and changes no counter else. -/
theorem copyBuildRow_eq (h : copyBuildRow layout src srcRow dst dstRow = .ok dst') :
    ∃ rows, dst' = { dst with
      heapUsed := dst.heapUsed + rowHeapBytes (src.decodeRow layout srcRow)
      rows := rows } := by
  unfold copyBuildRow at h
  unfold rowHeapBytes decodeRow
  generalize layout.columns = cols at h ⊢
  induction cols generalizing dst with
  | nil =>
    obtain rfl := Except.ok.inj h
    exact ⟨dst.rows, rfl⟩
  | cons col cols ih =>
    rw [List.foldlM_cons] at h
    cases hcol : copyBuildColumn src srcRow dstRow dst col with
    | error e =>
      rw [hcol] at h
      cases h
    | ok mid =>
      rw [hcol] at h
      obtain ⟨rows, rfl⟩ := copyBuildColumn_eq hcol
      obtain ⟨rows', rfl⟩ := ih h
      refine ⟨rows', ?_⟩
      rw [List.map_cons, List.map_cons, List.sum_cons, ← Nat.add_assoc]

/-- A row that the heap has room for is copied. -/
theorem copyBuildRow_of_fits
    (h : dst.heapUsed + rowHeapBytes (src.decodeRow layout srcRow) ≤ dst.heapCapacity) :
    ∃ dst', copyBuildRow layout src srcRow dst dstRow = .ok dst' := by
  unfold copyBuildRow
  unfold rowHeapBytes decodeRow at h
  generalize layout.columns = cols at h ⊢
  induction cols generalizing dst with
  | nil => exact ⟨dst, rfl⟩
  | cons col cols ih =>
    rw [List.map_cons, List.map_cons, List.sum_cons, ← Nat.add_assoc] at h
    have hcol : ∃ mid, copyBuildColumn src srcRow dstRow dst col = .ok mid := by
      unfold copyBuildColumn
      by_cases hkind : col.kind = .stringRef
      · rw [if_neg (not_not.mpr hkind)]
        have hroom : dst.heapUsed + heapBytesNeededForStringLength
            ((src.stringRef srcRow col).data src.rows src.heap).length ≤ dst.heapCapacity := by
          rw [length_data, ← valueHeapBytes_of_string hkind]
          omega
        obtain ⟨mid, ref, hstore⟩ := storeStringBytes_of_fits hroom
        rw [hstore]
        exact ⟨_, rfl⟩
      · rw [if_pos hkind]
        exact ⟨_, rfl⟩
    obtain ⟨mid, hmid⟩ := hcol
    obtain ⟨rows, heq⟩ := copyBuildColumn_eq hmid
    have hrest : mid.heapUsed + ((cols.map (src.decodeColumn srcRow)).map valueHeapBytes).sum ≤
        mid.heapCapacity := by
      rw [heq]
      exact h
    obtain ⟨dst', hdst'⟩ := ih hrest
    refine ⟨dst', ?_⟩
    rw [List.foldlM_cons, hmid]
    exact hdst'

/-- Room for a row, as `HasSpaceForAppend` asks for it. -/
theorem hasSpaceForAppend_iff {required : Nat} :
    t.hasSpaceForAppend required = true ↔
      t.rowCount < t.rowCapacity ∧ (required = 0 ∨ t.heapUsed + required ≤ t.heapCapacity) := by
  unfold hasSpaceForAppend
  simp only [Bool.and_eq_true, Bool.or_eq_true, decide_eq_true_eq]
  constructor
  · rintro ⟨hrow, hheap⟩
    exact ⟨hrow, by omega⟩
  · rintro ⟨hrow, hheap⟩
    exact ⟨hrow, by omega⟩

/-- The flat allocation limit is below the range of the counters. -/
theorem heapCapacity_of_allocate {rowCapacity rowWidth heapCapacity : Nat}
    (h : allocate rowCapacity rowWidth heapCapacity = .ok t) : heapCapacity < uint32Max := by
  unfold allocate checkFlatAllocSize at h
  split at h
  · cases h
  · rename_i hlimit
    unfold maxFlatAllocBytes headerBytes at hlimit
    unfold uint32Max
    omega

end HeapBytes
end TupleDataCollection
end PgYaap
