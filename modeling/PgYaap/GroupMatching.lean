import PgYaap.AggregateRoundTrip

/-! # Hashing and matching stored groups

The group columns of a stored row are hashed and compared as they lie in the row: a string by the
length and the first bytes in its reference and, where these do not settle it, by its bytes on
the heap; a whole row without strings by one comparison of memory, padding included. On filled
rows all of them see the values only. -/
namespace PgYaap

open ColumnSlots AggregateStates HashJoinBuild

/-- The little-endian value of the `prefix` of a reference. -/
def VecStringRef.prefixValue (ref : VecStringRef) : UInt64 :=
  ref.prefixBytes.foldr (fun b acc => acc <<< 8 ||| b.toUInt64) 0

namespace TupleDataCollection

/-! ## Values in a row -/

def int32At (t : TupleDataCollection) (rowIdx : Nat) (col : TdcPlacedColumn) : Int32 :=
  (UInt32.ofNat (ByteMemory.decode (t.rows.read (t.getRow rowIdx + col.offset) 4))).toInt32

def int64At (t : TupleDataCollection) (rowIdx : Nat) (col : TdcPlacedColumn) : Int64 :=
  (UInt64.ofNat (ByteMemory.decode (t.rows.read (t.getRow rowIdx + col.offset) 8))).toInt64

/-- The bits of a double. -/
def doubleAt (t : TupleDataCollection) (rowIdx : Nat) (col : TdcPlacedColumn) : UInt64 :=
  UInt64.ofNat (ByteMemory.decode (t.rows.read (t.getRow rowIdx + col.offset) 8))

/-- The string of a column: `VecStringRefDataPtr`. -/
def stringAt (t : TupleDataCollection) (rowIdx : Nat) (col : TdcPlacedColumn) : List UInt8 :=
  (t.stringRef rowIdx col).data t.rows t.heap

/-! ## Hashing -/

/-- The hash value of a string in column `i`, from its reference and its bytes. -/
def hashStringRef (i : Nat) (ref : VecStringRef) (bytes : List UInt8) : UInt64 :=
  bytes.zipIdx.foldl (fun value x => hashCombine value x.1.toUInt64 (UInt16.ofNat (i + x.2)))
    (mix64 (ref.prefixValue ^^^ UInt64.ofNat ref.len))

/-- What the loop of `HashGroupRow` feeds into the hash for column `i`. -/
def hashColumnAt (t : TupleDataCollection) (rowIdx : Nat) (col : TdcPlacedColumn) (i : Nat) :
    UInt64 :=
  match col.kind with
  | .int32 => (t.int32At rowIdx col).toUInt32.toUInt64
  | .int64 => (t.int64At rowIdx col).toUInt64
  | .double => t.doubleAt rowIdx col
  | .stringRef => hashStringRef i (t.stringRef rowIdx col) (t.stringAt rowIdx col)

/-- The loop of `HashGroupRow`. -/
def hashColumnsAt (layout : TupleDataLayout) (t : TupleDataCollection) (rowIdx : Nat) : UInt64 :=
  mix64 (layout.columns.zipIdx.foldl
    (fun h x => hashCombine h (t.hashColumnAt rowIdx x.1 x.2) (UInt16.ofNat x.2))
    hashStart ^^^ UInt64.ofNat layout.columns.length)

/-- `HashGroupRow`, with its branch for a single integer column. -/
def hashGroupRowAt (layout : TupleDataLayout) (t : TupleDataCollection) (rowIdx : Nat) : UInt64 :=
  match layout.columns with
  | [col] =>
    match col.kind with
    | .int32 => hashSingleGroupInt32Value (t.int32At rowIdx col)
    | .int64 => hashSingleGroupInt64Value (t.int64At rowIdx col)
    | .double | .stringRef => hashColumnsAt layout t rowIdx
  | _ => hashColumnsAt layout t rowIdx

/-! ## A stored row against a chunk row -/

/-- The comparison of a column with the chunk value in a slot. The reference of a chunk string
has its length and its first bytes, zero padded: so `store_string_bytes` writes them. -/
def matchColumnAt (t : TupleDataCollection) (rowIdx : Nat) (col : TdcPlacedColumn)
    (chunk : DataChunk) (slot chunkRow : Nat) : Bool :=
  match col.kind with
  | .int32 => t.int32At rowIdx col = chunk.getInt32 slot chunkRow
  | .int64 => t.int64At rowIdx col = chunk.getInt64 slot chunkRow
  | .double => t.doubleAt rowIdx col = chunk.getDouble slot chunkRow
  | .stringRef =>
    let ref := t.stringRef rowIdx col
    let bytes := chunk.getString slot chunkRow
    ref.len = bytes.length && ref.prefixBytes = stringPrefix bytes &&
      (ref.len ≤ 8 || t.stringAt rowIdx col = bytes)

/-- `MatchGroup`. -/
def matchGroupAt (layout : TupleDataLayout) (t : TupleDataCollection) (rowIdx : Nat)
    (row : AggregateStates.ChunkRow) : Bool :=
  layout.columns.all fun col => t.matchColumnAt rowIdx col row.1 col.srcColIdx row.2

/-- The loop of `MatchGroupLayouts`. -/
def matchLayoutColumnsAt (t : TupleDataCollection) (rowIdx : Nat) (row : AggregateStates.ChunkRow)
    (cols : List (TdcPlacedColumn × TdcPlacedColumn)) : Bool :=
  cols.all fun x => x.1.kind = x.2.kind && x.1.kind.width = x.2.kind.width &&
    t.matchColumnAt rowIdx x.1 row.1 x.2.srcColIdx row.2

/-- `MatchGroupLayouts`, with its branches for one column and for two INT32 columns. -/
def matchGroupLayoutsAt (rowLayout : TupleDataLayout) (t : TupleDataCollection) (rowIdx : Nat)
    (chunkLayout : TupleDataLayout) (row : AggregateStates.ChunkRow) : Bool :=
  if rowLayout.columns.length ≠ chunkLayout.columns.length then false
  else
    match rowLayout.hasStringRef, rowLayout.columns.zip chunkLayout.columns with
    | false, [(rowCol, chunkCol)] =>
      if rowCol.kind ≠ chunkCol.kind ∨ rowCol.kind.width ≠ chunkCol.kind.width then false
      else t.matchColumnAt rowIdx rowCol row.1 chunkCol.srcColIdx row.2
    | false, [(rowCol0, chunkCol0), (rowCol1, chunkCol1)] =>
      if rowCol0.kind = .int32 ∧ rowCol1.kind = .int32 ∧ chunkCol0.kind = .int32 ∧
          chunkCol1.kind = .int32 then
        t.int32At rowIdx rowCol0 = row.1.getInt32 chunkCol0.srcColIdx row.2 &&
          t.int32At rowIdx rowCol1 = row.1.getInt32 chunkCol1.srcColIdx row.2
      else t.matchLayoutColumnsAt rowIdx row [(rowCol0, chunkCol0), (rowCol1, chunkCol1)]
    | _, cols => t.matchLayoutColumnsAt rowIdx row cols

/-! ## Batches -/

/-- A lane of `MatchGroupBatch`: a stored row, or a null pointer, and a chunk row. -/
abbrev MatchLane : Type := Option Nat × Nat

/-- The scalar comparison of a lane. -/
def matchLane (layout : TupleDataLayout) (t : TupleDataCollection) (chunk : DataChunk)
    (lane : MatchLane) : Bool :=
  match lane.1 with
  | none => false
  | some rowIdx => matchGroupAt layout t rowIdx (chunk, lane.2)

/-- A lane of a vector comparison: where there is no row, zero is compared with zero, and the
mask of the valid lanes takes it out. -/
def vectorLane {α : Type} [DecidableEq α] (zero : α) (rowValue : Nat → α) (chunkValue : Nat → α)
    (lane : MatchLane) : Bool :=
  let valid := lane.1.isSome
  let rowVal := lane.1.elim zero rowValue
  let chunkVal := if valid then chunkValue lane.2 else zero
  decide (rowVal = chunkVal) && valid

/-- Full vectors of lanes are compared at once, the rest one by one. -/
def matchVectors (width : Nat) (vector scalar : MatchLane → Bool) (lanes : List MatchLane) :
    List Bool :=
  let full := lanes.length / width * width
  (lanes.take full).map vector ++ (lanes.drop full).map scalar

/-- `MatchGroupBatch`; the vector branches are compiled for `__aarch64__` only. -/
def matchGroupBatch (aarch64 : Bool) (layout : TupleDataLayout) (t : TupleDataCollection)
    (chunk : DataChunk) (lanes : List MatchLane) : List Bool :=
  let scalar := matchLane layout t chunk
  match aarch64, layout.columns with
  | true, [col] =>
    match col.kind with
    | .int32 =>
      matchVectors 4 (vectorLane 0 (t.int32At · col) (chunk.getInt32 col.srcColIdx)) scalar lanes
    | .int64 =>
      matchVectors 2 (vectorLane 0 (t.int64At · col) (chunk.getInt64 col.srcColIdx)) scalar lanes
    | .double =>
      matchVectors 2 (vectorLane 0 (t.doubleAt · col) (chunk.getDouble col.srcColIdx)) scalar lanes
    | .stringRef => lanes.map scalar
  | true, [col0, col1] =>
    if col0.kind = .int32 ∧ col1.kind = .int32 then
      matchVectors 4 (fun lane =>
        vectorLane 0 (t.int32At · col0) (chunk.getInt32 col0.srcColIdx) lane &&
          vectorLane 0 (t.int32At · col1) (chunk.getInt32 col1.srcColIdx) lane) scalar lanes
    else lanes.map scalar
  | _, _ => lanes.map scalar

/-! ## Two stored rows -/

/-- `LayoutGroupRegionWidth`. -/
def layoutGroupRegionWidth (layout : TupleDataLayout) : Nat :=
  layout.columns.foldl (fun width col => max width col.stop) 0

/-- The comparison of a column of two rows. -/
def matchColumnRows (a : TupleDataCollection) (rowA : Nat) (b : TupleDataCollection) (rowB : Nat)
    (col : TdcPlacedColumn) : Bool :=
  match col.kind with
  | .stringRef =>
    let refA := a.stringRef rowA col
    let refB := b.stringRef rowB col
    refA.len = refB.len && refA.prefixBytes = refB.prefixBytes &&
      (refA.len ≤ 8 || a.stringAt rowA col = b.stringAt rowB col)
  | .int32 | .int64 | .double =>
    a.rows.read (a.getRow rowA + col.offset) col.kind.width =
      b.rows.read (b.getRow rowB + col.offset) col.kind.width

/-- `MatchGroupRow`. -/
def matchGroupRow (layout : TupleDataLayout) (a : TupleDataCollection) (rowA : Nat)
    (b : TupleDataCollection) (rowB : Nat) : Bool :=
  if layout.hasStringRef then layout.columns.all (matchColumnRows a rowA b rowB)
  else a.rows.read (a.getRow rowA) (layoutGroupRegionWidth layout) =
    b.rows.read (b.getRow rowB) (layoutGroupRegionWidth layout)

/-! ## Filled columns -/

section Columns

variable {t a b : TupleDataCollection} {rowIdx rowA rowB : Nat} {col : TdcPlacedColumn}
  {v w : Datum}

theorem decodeColumn_int32 (hkind : col.kind = .int32) :
    t.decodeColumn rowIdx col = .int32 (t.int32At rowIdx col) := by
  rw [decodeColumn, hkind]
  rfl

theorem decodeColumn_int64 (hkind : col.kind = .int64) :
    t.decodeColumn rowIdx col = .int64 (t.int64At rowIdx col) := by
  rw [decodeColumn, hkind]
  rfl

theorem decodeColumn_double (hkind : col.kind = .double) :
    t.decodeColumn rowIdx col = .double (t.doubleAt rowIdx col) := by
  rw [decodeColumn, hkind]
  rfl

theorem decodeColumn_stringRef (hkind : col.kind = .stringRef) :
    t.decodeColumn rowIdx col = .stringRef (t.stringAt rowIdx col) := by
  rw [decodeColumn, hkind]
  rfl

theorem decodeColumn_kind : (t.decodeColumn rowIdx col).kind = col.kind := by
  cases hkind : col.kind with
  | int32 => rw [decodeColumn_int32 hkind, Datum.kind]
  | int64 => rw [decodeColumn_int64 hkind, Datum.kind]
  | double => rw [decodeColumn_double hkind, Datum.kind]
  | stringRef => rw [decodeColumn_stringRef hkind, Datum.kind]

theorem FilledColumn.kind (h : FilledColumn t rowIdx col v) : v.kind = col.kind := by
  rw [← h.column.value]
  exact decodeColumn_kind

/-- The reference of a filled string column. -/
theorem FilledColumn.stringRef (h : FilledColumn t rowIdx col v) (hkind : col.kind = .stringRef) :
    v = .stringRef (t.stringAt rowIdx col) ∧
      (t.stringRef rowIdx col).prefixBytes = stringPrefix (t.stringAt rowIdx col) ∧
      (t.stringRef rowIdx col).len = (t.stringAt rowIdx col).length := by
  have hvalue : v = .stringRef (t.stringAt rowIdx col) := by
    rw [← h.column.value, decodeColumn_stringRef hkind]
  exact ⟨hvalue, h.firstBytes hkind _ hvalue, (length_data t rowIdx col _ _).symm⟩

/-- **A filled column feeds its value into the hash.** -/
theorem FilledColumn.hash (h : FilledColumn t rowIdx col v) (i : Nat) :
    t.hashColumnAt rowIdx col i = v.hashValue i := by
  have hvalue := h.column.value
  unfold hashColumnAt
  cases hkind : col.kind with
  | int32 => rw [← hvalue, decodeColumn_int32 hkind, Datum.hashValue]
  | int64 => rw [← hvalue, decodeColumn_int64 hkind, Datum.hashValue]
  | double => rw [← hvalue, decodeColumn_double hkind, Datum.hashValue]
  | stringRef =>
    obtain ⟨hstring, hprefix, hlen⟩ := h.stringRef hkind
    have hvalue : (t.stringRef rowIdx col).prefixValue =
        stringPrefixValue (t.stringAt rowIdx col) := by
      rw [VecStringRef.prefixValue, hprefix, stringPrefixValue]
    dsimp only
    rw [hstring, Datum.hashValue, hashString, hashStringRef, hvalue, hlen]

/-- **A filled column matches a chunk value** exactly when it holds it. -/
theorem FilledColumn.match_iff (h : FilledColumn t rowIdx col v) (chunk : DataChunk)
    (slot chunkRow : Nat) :
    t.matchColumnAt rowIdx col chunk slot chunkRow = true ↔
      v = chunk.get col.kind slot chunkRow := by
  have hvalue := h.column.value
  unfold matchColumnAt
  cases hkind : col.kind with
  | int32 => rw [← hvalue, decodeColumn_int32 hkind, decide_eq_true_iff, DataChunk.get,
      Datum.int32.injEq]
  | int64 => rw [← hvalue, decodeColumn_int64 hkind, decide_eq_true_iff, DataChunk.get,
      Datum.int64.injEq]
  | double => rw [← hvalue, decodeColumn_double hkind, decide_eq_true_iff, DataChunk.get,
      Datum.double.injEq]
  | stringRef =>
    obtain ⟨hstring, hprefix, hlen⟩ := h.stringRef hkind
    dsimp only
    rw [hstring, hprefix, hlen, DataChunk.get, Datum.stringRef.injEq]
    exact matchString_iff

/-! ## Bytes and values -/

theorem int32_ofBytes_inj {m m' : ByteMemory} {start start' : Nat} :
    (UInt32.ofNat (ByteMemory.decode (m.read start 4))).toInt32 =
        (UInt32.ofNat (ByteMemory.decode (m'.read start' 4))).toInt32 ↔
      m.read start 4 = m'.read start' 4 := by
  have hlt := ByteMemory.decode_lt (m.read start 4)
  have hlt' := ByteMemory.decode_lt (m'.read start' 4)
  rw [ByteMemory.length_read] at hlt hlt'
  constructor
  · intro h
    have hnat := congrArg (fun v : Int32 => v.toUInt32.toNat) h
    rw [UInt32.toUInt32_toInt32, UInt32.toUInt32_toInt32, UInt32.toNat_ofNat_of_lt' hlt,
      UInt32.toNat_ofNat_of_lt' hlt'] at hnat
    exact ByteMemory.decode_injective (by rw [ByteMemory.length_read, ByteMemory.length_read]) hnat
  · intro h
    rw [h]

theorem uint64_ofBytes_inj {m m' : ByteMemory} {start start' : Nat} :
    UInt64.ofNat (ByteMemory.decode (m.read start 8)) =
        UInt64.ofNat (ByteMemory.decode (m'.read start' 8)) ↔
      m.read start 8 = m'.read start' 8 := by
  have hlt := ByteMemory.decode_lt (m.read start 8)
  have hlt' := ByteMemory.decode_lt (m'.read start' 8)
  rw [ByteMemory.length_read] at hlt hlt'
  constructor
  · intro h
    have hnat := congrArg UInt64.toNat h
    rw [UInt64.toNat_ofNat_of_lt' hlt, UInt64.toNat_ofNat_of_lt' hlt'] at hnat
    exact ByteMemory.decode_injective (by rw [ByteMemory.length_read, ByteMemory.length_read]) hnat
  · intro h
    rw [h]

/-- The bytes of a column without a string decide its value, and the value its bytes. -/
theorem decodeColumn_eq_iff (hkind : col.kind ≠ .stringRef) :
    a.decodeColumn rowA col = b.decodeColumn rowB col ↔
      a.rows.read (a.getRow rowA + col.offset) col.kind.width =
        b.rows.read (b.getRow rowB + col.offset) col.kind.width := by
  cases hk : col.kind with
  | int32 =>
    rw [decodeColumn_int32 hk, decodeColumn_int32 hk, Datum.int32.injEq]
    exact int32_ofBytes_inj
  | int64 =>
    rw [decodeColumn_int64 hk, decodeColumn_int64 hk, Datum.int64.injEq]
    refine Iff.trans ⟨fun h => ?_, congrArg UInt64.toInt64⟩ uint64_ofBytes_inj
    exact congrArg Int64.toUInt64 h
  | double =>
    rw [decodeColumn_double hk, decodeColumn_double hk, Datum.double.injEq]
    exact uint64_ofBytes_inj
  | stringRef => exact absurd hk hkind

/-- **Filled columns of two rows match** exactly when they hold one value. -/
theorem FilledColumn.matchRows_iff (ha : FilledColumn a rowA col v) (hb : FilledColumn b rowB col w) :
    matchColumnRows a rowA b rowB col = true ↔ v = w := by
  unfold matchColumnRows
  by_cases hkind : col.kind = .stringRef
  · obtain ⟨hv, hprefixA, hlenA⟩ := ha.stringRef hkind
    obtain ⟨hw, hprefixB, hlenB⟩ := hb.stringRef hkind
    rw [hkind]
    dsimp only
    rw [hv, hw, hprefixA, hprefixB, hlenA, hlenB, Datum.stringRef.injEq]
    exact matchString_iff
  · rw [← ha.column.value, ← hb.column.value, decodeColumn_eq_iff hkind]
    cases hk : col.kind with
    | stringRef => exact absurd hk hkind
    | int32 | int64 | double => exact decide_eq_true_iff

end Columns

/-! ## Lists of columns -/

section Lists

variable {α β γ : Type} {R S : α → β → Prop} {as : List α} {bs bs' : List β}

theorem all_iff_eq_map {p : α → Bool} {f : α → β} (hp : ∀ a b, R a b → (p a = true ↔ b = f a))
    (h : List.Forall₂ R as bs) : as.all p = true ↔ bs = as.map f := by
  induction h with
  | nil => simp
  | cons hab _ ih => rw [List.all_cons, Bool.and_eq_true, List.map_cons, List.cons.injEq, hp _ _ hab,
      ih]

theorem zip_all_iff_eq_map {p : α × γ → Bool} {g : γ → β}
    (hp : ∀ a b c, R a b → (p (a, c) = true ↔ b = g c)) (h : List.Forall₂ R as bs) {cs : List γ}
    (hlen : as.length = cs.length) : (as.zip cs).all p = true ↔ bs = cs.map g := by
  induction h generalizing cs with
  | nil =>
    obtain rfl := List.length_eq_zero_iff.1 hlen.symm
    simp
  | cons hab _ ih =>
    cases cs with
    | nil => cases hlen
    | cons c cs => rw [List.zip_cons_cons, List.all_cons, Bool.and_eq_true, List.map_cons,
        List.cons.injEq, hp _ _ _ hab, ih (Nat.succ.inj hlen)]

theorem all_iff_eq {p : α → Bool} (hp : ∀ a b b', R a b → S a b' → (p a = true ↔ b = b'))
    (h : List.Forall₂ R as bs) (h' : List.Forall₂ S as bs') : as.all p = true ↔ bs = bs' := by
  induction h generalizing bs' with
  | nil =>
    cases h'
    simp
  | cons hab _ ih =>
    cases h' with
    | cons hab' htail => rw [List.all_cons, Bool.and_eq_true, List.cons.injEq, hp _ _ _ hab hab',
        ih htail]

end Lists

/-! ## Filled rows -/

section Rows

variable {layout : AggregateLayout} {t a b : TupleDataCollection} {rowIdx rowA rowB : Nat}
  {row rowOfA rowOfB : StoredRow layout}

theorem FilledRow.decodeRow (h : FilledRow layout t rowIdx row) :
    t.decodeRow layout.toTupleDataLayout rowIdx = row.1 := by
  have hcolumns := h.columns
  unfold TupleDataCollection.decodeRow
  generalize layout.columns = cols at hcolumns ⊢
  generalize row.1 = values at hcolumns ⊢
  induction hcolumns with
  | nil => rfl
  | cons hcol _ ih => rw [List.map_cons, hcol.column.value, ih]

/-- The branch for a single integer column computes the general hash. -/
theorem hashGroupRowAt_eq (layout : TupleDataLayout) (t : TupleDataCollection) (rowIdx : Nat) :
    hashGroupRowAt layout t rowIdx = hashColumnsAt layout t rowIdx := by
  unfold hashGroupRowAt
  split
  · rename_i col hcols
    have hsingle : hashColumnsAt layout t rowIdx =
        mix64 (hashCombine hashStart (t.hashColumnAt rowIdx col 0) 0 ^^^ 1) := by
      rw [hashColumnsAt, hcols]
      rfl
    cases hkind : col.kind with
    | int32 | int64 =>
      rw [hsingle, hashColumnAt, hkind]
      rfl
    | double | stringRef => rfl
  · rfl

/-- **The hash of a filled row is that of its values.** -/
theorem FilledRow.hash (h : FilledRow layout t rowIdx row) :
    hashGroupRowAt layout.toTupleDataLayout t rowIdx = hashColumns row.1 := by
  have hcolumns := h.columns
  rw [hashGroupRowAt_eq, hashColumnsAt, hashColumns, hcolumns.length_eq]
  have hall : ∀ (cols : List TdcPlacedColumn) (values : List Datum) (i : Nat) (start : UInt64),
      List.Forall₂ (FilledColumn t rowIdx) cols values →
        (cols.zipIdx i).foldl
            (fun h x => hashCombine h (t.hashColumnAt rowIdx x.1 x.2) (UInt16.ofNat x.2)) start =
          (values.zipIdx i).foldl
            (fun h x => hashCombine h (x.1.hashValue x.2) (UInt16.ofNat x.2)) start := by
    intro cols values i start hfilled
    induction hfilled generalizing i start with
    | nil => rfl
    | cons hcol _ ih => rw [List.zipIdx_cons, List.zipIdx_cons, List.foldl_cons, List.foldl_cons,
        hcol.hash, ih]
  rw [hall _ _ 0 hashStart hcolumns]

/-- **A filled row matches a chunk row** exactly when it holds its values. -/
theorem FilledRow.match_iff (h : FilledRow layout t rowIdx row)
    (chunkRow : AggregateStates.ChunkRow) :
    matchGroupAt layout.toTupleDataLayout t rowIdx chunkRow = true ↔
      row.1 = chunkRow.1.groupColumns layout.descs chunkRow.2 := by
  rw [DataChunk.groupColumns, TupleDataLayout.descs, List.map_map]
  exact all_iff_eq_map (fun col v hcol => hcol.match_iff _ _ _) h.columns

/-- A comparison with a column of another layout. -/
theorem FilledColumn.matchLayouts_iff {col col' : TdcPlacedColumn} {v : Datum}
    (h : FilledColumn t rowIdx col v) (chunkRow : AggregateStates.ChunkRow) :
    (decide (col.kind = col'.kind) && decide (col.kind.width = col'.kind.width) &&
        t.matchColumnAt rowIdx col chunkRow.1 col'.srcColIdx chunkRow.2) = true ↔
      v = chunkRow.1.get col'.kind col'.srcColIdx chunkRow.2 := by
  rw [Bool.and_eq_true, Bool.and_eq_true, decide_eq_true_iff, decide_eq_true_iff, h.match_iff]
  constructor
  · rintro ⟨⟨hkind, -⟩, hv⟩
    rw [hv, hkind]
  · intro hv
    have hkind : col.kind = col'.kind := by rw [← h.kind, hv, DataChunk.get_kind]
    rw [hkind]
    exact ⟨⟨rfl, rfl⟩, hv⟩

/-- The branches of `MatchGroupLayouts` make the comparisons of its loop. -/
theorem matchGroupLayoutsAt_eq (rowLayout : TupleDataLayout) (t : TupleDataCollection)
    (rowIdx : Nat) (chunkLayout : TupleDataLayout) (row : AggregateStates.ChunkRow) :
    matchGroupLayoutsAt rowLayout t rowIdx chunkLayout row =
      (decide (rowLayout.columns.length = chunkLayout.columns.length) &&
        t.matchLayoutColumnsAt rowIdx row (rowLayout.columns.zip chunkLayout.columns)) := by
  unfold matchGroupLayoutsAt
  by_cases hlen : rowLayout.columns.length = chunkLayout.columns.length
  · rw [if_neg (not_not.mpr hlen), decide_eq_true hlen, Bool.true_and]
    split
    · rename_i rowCol chunkCol _ hcols
      rw [hcols]
      unfold matchLayoutColumnsAt
      rw [List.all_cons, List.all_nil, Bool.and_true]
      by_cases hkind : rowCol.kind = chunkCol.kind
      · rw [hkind, if_neg (by simp)]
        simp
      · rw [if_pos (Or.inl hkind), decide_eq_false hkind]
        rfl
    · rename_i rowCol0 chunkCol0 rowCol1 chunkCol1 _ hcols
      rw [hcols]
      split
      · rename_i hkinds
        obtain ⟨hr0, hr1, hc0, hc1⟩ := hkinds
        unfold matchLayoutColumnsAt matchColumnAt
        rw [List.all_cons, List.all_cons, List.all_nil, hr0, hr1, hc0, hc1]
        simp
      · rfl
    · rfl
  · rw [if_pos hlen, decide_eq_false hlen]
    rfl

/-- **A filled row matches a chunk row of another layout** exactly when it holds its values. -/
theorem FilledRow.matchLayouts_iff (h : FilledRow layout t rowIdx row)
    (chunkLayout : TupleDataLayout) (chunkRow : AggregateStates.ChunkRow) :
    matchGroupLayoutsAt layout.toTupleDataLayout t rowIdx chunkLayout chunkRow = true ↔
      row.1 = chunkRow.1.groupColumns chunkLayout.descs chunkRow.2 := by
  rw [matchGroupLayoutsAt_eq, DataChunk.groupColumns, TupleDataLayout.descs, List.map_map,
    Bool.and_eq_true, decide_eq_true_iff]
  constructor
  · rintro ⟨hlen, hall⟩
    exact (zip_all_iff_eq_map (fun col v col' hcol => hcol.matchLayouts_iff _) h.columns hlen).1
      hall
  · intro hrow
    have hlen : layout.columns.length = chunkLayout.columns.length := by
      rw [h.columns.length_eq, hrow, List.length_map]
    exact ⟨hlen, (zip_all_iff_eq_map (fun col v col' hcol => hcol.matchLayouts_iff _) h.columns
      hlen).2 hrow⟩

/-! ## Batches -/

theorem vectorLane_eq {α : Type} [DecidableEq α] {zero : α} {rowValue chunkValue : Nat → α}
    (lane : MatchLane) : vectorLane zero rowValue chunkValue lane =
      lane.1.elim false fun rowIdx => decide (rowValue rowIdx = chunkValue lane.2) := by
  obtain ⟨rowPtr, chunkRow⟩ := lane
  cases rowPtr with
  | none => simp [vectorLane]
  | some rowIdx => simp [vectorLane]

theorem matchVectors_eq {width : Nat} {vector scalar : MatchLane → Bool} (h : vector = scalar)
    (lanes : List MatchLane) : matchVectors width vector scalar lanes = lanes.map scalar := by
  rw [matchVectors, h, ← List.map_append, List.take_append_drop]

/-- **The vector branches compute what the scalar comparison does.** -/
theorem matchGroupBatch_eq (aarch64 : Bool) (layout : TupleDataLayout) (t : TupleDataCollection)
    (chunk : DataChunk) (lanes : List MatchLane) :
    matchGroupBatch aarch64 layout t chunk lanes = lanes.map (matchLane layout t chunk) := by
  unfold matchGroupBatch
  dsimp only
  split
  · rename_i col hcols
    have hscalar : matchLane layout t chunk = fun lane => lane.1.elim false fun rowIdx =>
        t.matchColumnAt rowIdx col chunk col.srcColIdx lane.2 := by
      funext lane
      obtain ⟨rowPtr, chunkRow⟩ := lane
      cases rowPtr with
      | none => rfl
      | some rowIdx => simp [matchLane, matchGroupAt, hcols]
    split
    · rename_i hkind
      apply matchVectors_eq
      rw [hscalar]
      funext lane
      rw [vectorLane_eq]
      simp only [matchColumnAt, hkind]
    · rename_i hkind
      apply matchVectors_eq
      rw [hscalar]
      funext lane
      rw [vectorLane_eq]
      simp only [matchColumnAt, hkind]
    · rename_i hkind
      apply matchVectors_eq
      rw [hscalar]
      funext lane
      rw [vectorLane_eq]
      simp only [matchColumnAt, hkind]
    · rfl
  · rename_i col0 col1 hcols
    split
    · rename_i hkinds
      apply matchVectors_eq
      funext lane
      rw [vectorLane_eq, vectorLane_eq]
      obtain ⟨rowPtr, chunkRow⟩ := lane
      cases rowPtr with
      | none => rfl
      | some rowIdx => simp [matchLane, matchGroupAt, matchColumnAt, hcols, hkinds.1, hkinds.2]
    · rfl
  · rfl

/-! ## Two rows -/

theorem le_layoutGroupRegionWidth {layout : TupleDataLayout} :
    ∀ col ∈ layout.columns, col.stop ≤ layoutGroupRegionWidth layout := by
  have hall : ∀ (cols : List TdcPlacedColumn) (width : Nat),
      width ≤ cols.foldl (fun width col => max width col.stop) width ∧
        ∀ col ∈ cols, col.stop ≤ cols.foldl (fun width col => max width col.stop) width := by
    intro cols
    induction cols with
    | nil => exact fun width => ⟨Nat.le_refl _, fun _ h => absurd h List.not_mem_nil⟩
    | cons col cols ih =>
      intro width
      have hrest := ih (max width col.stop)
      rw [List.foldl_cons]
      refine ⟨by omega, fun c hc => ?_⟩
      rcases List.mem_cons.1 hc with rfl | hmem
      · omega
      · exact hrest.2 c hmem
  exact (hall layout.columns 0).2

theorem exists_of_lt_layoutGroupRegionWidth {layout : TupleDataLayout} {k : Nat}
    (h : k < layoutGroupRegionWidth layout) : ∃ col ∈ layout.columns, k < col.stop := by
  have hall : ∀ (cols : List TdcPlacedColumn) (width : Nat),
      k < cols.foldl (fun width col => max width col.stop) width →
        k < width ∨ ∃ col ∈ cols, k < col.stop := by
    intro cols
    induction cols with
    | nil => exact fun width hk => Or.inl hk
    | cons col cols ih =>
      intro width hk
      rcases ih (max width col.stop) hk with hk | ⟨c, hc, hk⟩
      · by_cases hw : k < width
        · exact Or.inl hw
        · exact Or.inr ⟨col, List.mem_cons_self, by omega⟩
      · exact Or.inr ⟨c, List.mem_cons_of_mem _ hc, hk⟩
  exact (hall layout.columns 0 h).resolve_left (Nat.not_lt_zero k)

/-- The field order of the row format: the columns lie before the aggregates. -/
def ColumnsFirst (layout : AggregateLayout) : Prop :=
  ∀ agg ∈ layout.aggregates, ∀ col ∈ layout.columns, col.stop ≤ agg.offset

/-- Between its columns the group region of a filled row is zero. -/
theorem FilledRow.region_zero (h : FilledRow layout t rowIdx row) (hfirst : ColumnsFirst layout)
    {k : Nat} (hk : k < layoutGroupRegionWidth layout.toTupleDataLayout)
    (hout : ∀ col ∈ layout.columns, k < col.offset ∨ col.stop ≤ k) :
    t.rows (t.getRow rowIdx + k) = 0 := by
  obtain ⟨col, hcol, hstop⟩ := exists_of_lt_layoutGroupRegionWidth hk
  have hin := layout.placed.mem hcol
  apply h.padding k (by omega) hout
  intro agg hagg
  have hbefore := hfirst agg hagg col hcol
  omega

/-- **The group regions of two filled rows without strings** are equal exactly when the values
are: what lies between the columns is zero in both. -/
theorem FilledRow.region_eq_iff (ha : FilledRow layout a rowA rowOfA)
    (hb : FilledRow layout b rowB rowOfB) (hfirst : ColumnsFirst layout)
    (hfixed : layout.hasStringRef = false) :
    a.rows.read (a.getRow rowA) (layoutGroupRegionWidth layout.toTupleDataLayout) =
        b.rows.read (b.getRow rowB) (layoutGroupRegionWidth layout.toTupleDataLayout) ↔
      rowOfA.1 = rowOfB.1 := by
  have hkind : ∀ col ∈ layout.columns, col.kind ≠ .stringRef := by
    intro col hcol hstring
    rw [TupleDataLayout.hasStringRef, List.any_eq_false] at hfixed
    exact hfixed col hcol (decide_eq_true hstring)
  rw [← ha.decodeRow, ← hb.decodeRow, TupleDataCollection.decodeRow,
    TupleDataCollection.decodeRow, List.map_inj_left]
  constructor
  · intro h col hcol
    rw [decodeColumn_eq_iff (hkind col hcol)]
    have hbytes := read_inj h
    have hwithin := le_layoutGroupRegionWidth col hcol
    refine (ByteMemory.read_eq_read fun i hi => ?_)
    have hstop : col.stop = col.offset + col.kind.width := rfl
    rw [Nat.add_assoc, Nat.add_assoc]
    exact hbytes (col.offset + i) (by omega)
  · intro h
    refine ByteMemory.read_eq_read fun k hk => ?_
    by_cases hcol : ∃ col ∈ layout.columns, col.offset ≤ k ∧ k < col.stop
    · obtain ⟨col, hcol, hle, hlt⟩ := hcol
      have hbytes := read_inj ((decodeColumn_eq_iff (hkind col hcol)).1 (h col hcol)) (k - col.offset)
      have hstop : col.stop = col.offset + col.kind.width := rfl
      rw [Nat.add_assoc, Nat.add_assoc, Nat.add_sub_cancel' hle] at hbytes
      exact hbytes (by omega)
    · have hout : ∀ col ∈ layout.columns, k < col.offset ∨ col.stop ≤ k := by
        intro col hmem
        by_contra hin
        exact hcol ⟨col, hmem, by omega, by omega⟩
      rw [ha.region_zero hfirst hk hout, hb.region_zero hfirst hk hout]

/-- **Two filled rows match** exactly when they hold the same values. -/
theorem FilledRow.matchRow_iff (ha : FilledRow layout a rowA rowOfA)
    (hb : FilledRow layout b rowB rowOfB) (hfirst : ColumnsFirst layout) :
    matchGroupRow layout.toTupleDataLayout a rowA b rowB = true ↔ rowOfA.1 = rowOfB.1 := by
  unfold matchGroupRow
  cases hstring : layout.hasStringRef with
  | true =>
    rw [if_pos rfl]
    exact all_iff_eq (fun col v w hv hw => hv.matchRows_iff hw) ha.columns hb.columns
  | false =>
    rw [if_neg Bool.false_ne_true, decide_eq_true_iff]
    exact ha.region_eq_iff hb hfirst hstring

/-! ## Row stores -/

/-- A row of a row store is filled. -/
theorem RowStore.filled (h : RowStore layout t) {r : Nat} (hr : r < t.rowCount) :
    ∃ row : StoredRow layout, FilledRow layout t r row ∧
      row.1 = t.decodeRow layout.toTupleDataLayout r := by
  obtain ⟨rows, hrows⟩ := h.holds
  rw [hrows.rowCount] at hr
  have hfilled := hrows.row r _ (List.getElem?_eq_getElem hr)
  exact ⟨_, hfilled, hfilled.decodeRow.symm⟩

/-- A row that has been appended keeps its values through writes to other rows. -/
theorem RowStore.hash_appended {t' t'' : TupleDataCollection} {rows : List (StoredRow layout)}
    (hrows : HoldsRows layout t rows) {added : StoredRow layout}
    (happended : HoldsRows layout t' (rows ++ [added])) {r : Nat} (hr : r = t.rowCount)
    (hothers : WritesOthers layout r t' t'') :
    hashGroupRowAt layout.toTupleDataLayout t'' r = hashColumns added.1 := by
  have hrow : (rows ++ [added])[r]? = some added := by
    rw [hr, hrows.rowCount]
    exact List.getElem?_concat_length
  obtain ⟨rows', hrows', hrow'⟩ := hothers.holds happended hrow
  exact (hrows'.row r _ hrow').hash

/-- How a chunk row gets into a row store. -/
def Scatters (layout : AggregateLayout) (dst : TupleDataCollection) (r : Nat)
    (chunkRow : AggregateStates.ChunkRow) (t' : TupleDataCollection) : Prop :=
  scatterGroup layout dst r chunkRow = .ok t' ∨ scatter layout dst r chunkRow = .ok t'

/-- How a row gets into another row store. -/
def Copies (layout : AggregateLayout) (src : TupleDataCollection) (srcRow : Nat)
    (dst : TupleDataCollection) (r : Nat) (t' : TupleDataCollection) : Prop :=
  copyTdcRow layout src srcRow dst r = .ok t' ∨ copyGroup layout src srcRow dst r = .ok t'

/-- **Hashing and matching of groups.** A scattered row hashes like its chunk row, and a copy
like the row it copies, whatever is written to other rows afterwards. A stored row matches a
chunk row, a chunk row of another layout, the lanes of a batch and another stored row exactly
when the group columns are equal; and then the hashes are. -/
theorem groups_hash_and_match (layout : AggregateLayout) (hfirst : ColumnsFirst layout)
    {t : TupleDataCollection} (ht : RowStore layout t) :
    (∀ {dst t' t'' : TupleDataCollection} {r : Nat} {chunkRow : AggregateStates.ChunkRow},
      t.appendRow = some (dst, r) → Scatters layout dst r chunkRow t' →
        WritesOthers layout r t' t'' →
        hashGroupRowAt layout.toTupleDataLayout t'' r =
          hashGroup layout.descs chunkRow.1 chunkRow.2) ∧
    (∀ {src dst t' t'' : TupleDataCollection} {s r : Nat}, RowStore layout src →
      s < src.rowCount → t.appendRow = some (dst, r) → Copies layout src s dst r t' →
        WritesOthers layout r t' t'' →
        hashGroupRowAt layout.toTupleDataLayout t'' r =
          hashGroupRowAt layout.toTupleDataLayout src s) ∧
    ∀ {r : Nat}, r < t.rowCount →
      (∀ chunkRow : AggregateStates.ChunkRow,
        (matchGroupAt layout.toTupleDataLayout t r chunkRow = true ↔
          t.decodeRow layout.toTupleDataLayout r =
            chunkRow.1.groupColumns layout.descs chunkRow.2) ∧
        (matchGroupAt layout.toTupleDataLayout t r chunkRow = true →
          hashGroupRowAt layout.toTupleDataLayout t r =
            hashGroup layout.descs chunkRow.1 chunkRow.2) ∧
        ∀ (aarch64 : Bool) (lanes : List MatchLane) (lane : Nat),
          lanes[lane]? = some (some r, chunkRow.2) →
          ((matchGroupBatch aarch64 layout.toTupleDataLayout t chunkRow.1 lanes)[lane]? =
            some true ↔ t.decodeRow layout.toTupleDataLayout r =
              chunkRow.1.groupColumns layout.descs chunkRow.2)) ∧
      (∀ (chunkLayout : TupleDataLayout) (chunkRow : AggregateStates.ChunkRow),
        (matchGroupLayoutsAt layout.toTupleDataLayout t r chunkLayout chunkRow = true ↔
          t.decodeRow layout.toTupleDataLayout r =
            chunkRow.1.groupColumns chunkLayout.descs chunkRow.2) ∧
        (matchGroupLayoutsAt layout.toTupleDataLayout t r chunkLayout chunkRow = true →
          hashGroupRowAt layout.toTupleDataLayout t r =
            hashGroup chunkLayout.descs chunkRow.1 chunkRow.2)) ∧
      ∀ {t' : TupleDataCollection} {r' : Nat}, RowStore layout t' → r' < t'.rowCount →
        (matchGroupRow layout.toTupleDataLayout t r t' r' = true ↔
          t.decodeRow layout.toTupleDataLayout r = t'.decodeRow layout.toTupleDataLayout r') ∧
        (matchGroupRow layout.toTupleDataLayout t r t' r' = true →
          hashGroupRowAt layout.toTupleDataLayout t r =
            hashGroupRowAt layout.toTupleDataLayout t' r') := by
  obtain ⟨rows, hrows⟩ := ht.holds
  refine ⟨?_, ?_, ?_⟩
  · intro dst t' t'' r chunkRow happ hscatter hothers
    have hr := (appendRow_eq happ).2.2
    rw [hashGroup_eq]
    rcases hscatter with hok | hok
    · exact RowStore.hash_appended hrows (hrows.append_scatterGroup happ hok) hr hothers
    · exact RowStore.hash_appended hrows (hrows.append_scatter happ hok) hr hothers
  · intro src dst t' t'' s r hsrc hs happ hcopy hothers
    have hr := (appendRow_eq happ).2.2
    obtain ⟨row, hfilled, hvalues⟩ := hsrc.filled hs
    rw [hfilled.hash, hvalues]
    rcases hcopy with hok | hok
    · exact RowStore.hash_appended hrows (hrows.append_copy happ hok) hr hothers
    · exact RowStore.hash_appended hrows (hrows.append_copyGroup happ hok) hr hothers
  · intro r hr
    obtain ⟨row, hfilled, hvalues⟩ := ht.filled hr
    rw [← hvalues, hfilled.hash]
    refine ⟨fun chunkRow => ⟨hfilled.match_iff chunkRow, fun h => ?_, ?_⟩,
      fun chunkLayout chunkRow => ⟨hfilled.matchLayouts_iff chunkLayout chunkRow, fun h => ?_⟩, ?_⟩
    · rw [hashGroup_eq, (hfilled.match_iff chunkRow).1 h]
    · intro aarch64 lanes lane hlane
      rw [matchGroupBatch_eq, List.getElem?_map, hlane, Option.map_some, Option.some.injEq]
      exact hfilled.match_iff chunkRow
    · rw [hashGroup_eq, (hfilled.matchLayouts_iff chunkLayout chunkRow).1 h]
    · intro t' r' ht' hr'
      obtain ⟨row', hfilled', hvalues'⟩ := ht'.filled hr'
      rw [← hvalues', hfilled'.hash]
      have hiff := hfilled.matchRow_iff hfilled' hfirst
      exact ⟨hiff, fun h => by rw [hiff.1 h]⟩

theorem groups_hash_and_match_averageRow :
    ∃ t, scatter averageLayout (averageStore 1) 0 (averageRow 7) = .ok t ∧
      hashGroupRowAt averageLayout.toTupleDataLayout t 0 =
        hashGroup averageLayout.descs (averageRow 7).1 (averageRow 7).2 :=
  ⟨_, rfl, (groups_hash_and_match averageLayout (by unfold ColumnsFirst; decide)
    averageStore_rowStore).1 rfl (Or.inr rfl) Relation.ReflTransGen.refl⟩

end Rows

end TupleDataCollection
end PgYaap
