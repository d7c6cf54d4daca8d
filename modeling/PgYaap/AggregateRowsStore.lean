import PgYaap.AggregateRows

/-! # Row stores with aggregates

A row is filled when its columns hold their values, its string references carry the first bytes
of their strings, its states hold theirs, and every byte between them is zero. Rows are filled
when they are appended, from a chunk or from another store, and stay so: a later append and a
change of the states of another row do not reach them. -/
namespace PgYaap

open ColumnSlots AggregateStates HashJoinBuild

namespace TupleDataCollection

/-! ## Columns -/

/-- A column holds a value; a string reference carries the first bytes of its string. -/
structure FilledColumn (t : TupleDataCollection) (rowIdx : Nat) (col : TdcPlacedColumn)
    (v : Datum) : Prop where
  column : ColumnAt t rowIdx col v 0 t.heapUsed
  firstBytes : col.kind = .stringRef → ∀ bytes, v = .stringRef bytes →
    (t.stringRef rowIdx col).prefixBytes = stringPrefix bytes

/-- What storing a value in a column comes to. -/
structure Fills (t t' : TupleDataCollection) (rowIdx : Nat) (col : TdcPlacedColumn) (v : Datum) :
    Prop where
  stored : Stored t t' rowIdx col v
  firstBytes : col.kind = .stringRef → ∀ bytes, v = .stringRef bytes →
    (t'.stringRef rowIdx col).prefixBytes = stringPrefix bytes

section Columns

variable {t t' dst dst' : TupleDataCollection} {rowIdx : Nat} {col : TdcPlacedColumn} {v : Datum}

theorem stringRef_congr (hkind : col.kind = .stringRef) (hwidth : t'.rowWidth = t.rowWidth)
    (h : ∀ a, t.getRow rowIdx + col.offset ≤ a → a < t.getRow rowIdx + col.stop →
      t'.rows a = t.rows a) : t'.stringRef rowIdx col = t.stringRef rowIdx col := by
  have hrow : t'.getRow rowIdx = t.getRow rowIdx := by
    rw [TupleDataCollection.getRow, hwidth, TupleDataCollection.getRow]
  have hstop : col.stop = col.offset + 16 := by rw [TdcPlacedColumn.stop, hkind]; rfl
  rw [stringRef, stringRef, hrow]
  exact congrArg VecStringRef.ofBytes
    (ByteMemory.read_congr fun a ha hb => h a ha (by omega))

theorem FilledColumn.frame (h : FilledColumn t rowIdx col v) (hwidth : t'.rowWidth = t.rowWidth)
    (hcapacity : t'.rowCapacity = t.rowCapacity) (hused : t.heapUsed ≤ t'.heapUsed)
    (hrow : ∀ a, t.getRow rowIdx + col.offset ≤ a → a < t.getRow rowIdx + col.stop →
      t'.rows a = t.rows a)
    (hheap : ∀ a, t.heap ≤ a → a < t.heap + t.heapUsed → t'.rows a = t.rows a) :
    FilledColumn t' rowIdx col v := by
  refine ⟨(h.column.frame hwidth hcapacity hrow hheap).mono (Nat.le_refl _) hused, ?_⟩
  intro hkind bytes hv
  rw [stringRef_congr hkind hwidth hrow]
  exact h.firstBytes hkind bytes hv

theorem storeStringBytes_prefixBytes {data : List UInt8} {ref : VecStringRef}
    (h : t.storeStringBytes data = some (t', ref)) : ref.prefixBytes = stringPrefix data := by
  unfold storeStringBytes at h
  dsimp only at h
  by_cases h0 : data.length = 0
  · rw [if_pos h0, Option.some.injEq, Prod.mk.injEq] at h
    rw [← h.2]
  · by_cases h8 : data.length ≤ 8
    · rw [if_neg h0, if_pos h8, Option.some.injEq, Prod.mk.injEq] at h
      rw [← h.2]
    · rw [if_neg h0, if_neg h8] at h
      split at h
      · cases h
      · rw [Option.some.injEq, Prod.mk.injEq] at h
        rw [← h.2]

/-- The reference of a string column that has just been written. -/
theorem stringRef_writeColumn {ref : VecStringRef} (hlength : ref.bytes.length = 16)
    (hbytes : VecStringRef.ofBytes ref.bytes = ref) :
    (t.writeColumn rowIdx col ref.bytes).stringRef rowIdx col = ref := by
  have hread : (t.writeColumn rowIdx col ref.bytes).rows.read
      ((t.writeColumn rowIdx col ref.bytes).getRow rowIdx + col.offset) 16 = ref.bytes :=
    ByteMemory.read_write_of_length hlength
  rw [stringRef, hread, hbytes]

theorem scatterGroupColumn_fills {chunk : DataChunk} {chunkRow : Nat}
    (hfit : dst.heapUsed ≤ dst.heapCapacity) (hcapacity : dst.heapCapacity < 2 ^ 32)
    (hroom : dst.getRow rowIdx + col.stop ≤ dst.heap)
    (h : scatterGroupColumn chunk chunkRow rowIdx dst col = .ok dst') :
    Fills dst dst' rowIdx col (chunk.get col.kind col.srcColIdx chunkRow) := by
  refine ⟨scatterGroupColumn_stored hfit hcapacity hroom h, fun hkind bytes hv => ?_⟩
  unfold scatterGroupColumn at h
  rw [hkind] at h hv
  dsimp only at h
  split at h
  · cases h
  · rename_i mid ref hstore
    obtain rfl := Except.ok.inj h
    have hstored := storeStringBytes_stored hfit hcapacity hstore
    rw [stringRef_writeColumn hstored.ref_length hstored.ref_bytes,
      storeStringBytes_prefixBytes hstore]
    exact congrArg stringPrefix (Datum.stringRef.inj hv)

theorem copyBuildColumn_fills {src : TupleDataCollection} {srcRow : Nat}
    (hfit : dst.heapUsed ≤ dst.heapCapacity) (hcapacity : dst.heapCapacity < 2 ^ 32)
    (hroom : dst.getRow rowIdx + col.stop ≤ dst.heap)
    (h : copyBuildColumn src srcRow rowIdx dst col = .ok dst') :
    Fills dst dst' rowIdx col (src.decodeColumn srcRow col) := by
  refine ⟨copyBuildColumn_stored hfit hcapacity hroom h, fun hkind bytes hv => ?_⟩
  unfold copyBuildColumn at h
  rw [if_neg (not_not.mpr hkind)] at h
  split at h
  · cases h
  · rename_i mid ref hstore
    obtain rfl := Except.ok.inj h
    have hstored := storeStringBytes_stored hfit hcapacity hstore
    rw [stringRef_writeColumn hstored.ref_length hstored.ref_bytes,
      storeStringBytes_prefixBytes hstore]
    rw [decodeColumn, hkind] at hv
    exact congrArg stringPrefix (Datum.stringRef.inj hv)

/-- What a loop over the columns of a row comes to. -/
structure ColumnsFilled (t t' : TupleDataCollection) (rowIdx start stop : Nat)
    (cols : List TdcPlacedColumn) (value : TdcPlacedColumn → Datum) : Prop where
  extended : Extended t t' rowIdx start stop
  filled : ∀ col ∈ cols, FilledColumn t' rowIdx col (value col)
  same : ∀ a, (∀ col ∈ cols, a < t.getRow rowIdx + col.offset ∨ t.getRow rowIdx + col.stop ≤ a) →
    a < t.heap + t.heapUsed ∨ t.heap + t'.heapUsed ≤ a → t'.rows a = t.rows a

/-- **A loop over the columns of a row** fills them, and changes no byte between them. -/
theorem fillColumns
    {store : TupleDataCollection → TdcPlacedColumn → Except String TupleDataCollection}
    {value : TdcPlacedColumn → Datum}
    (hstore : ∀ (dst dst' : TupleDataCollection) col, dst.heapUsed ≤ dst.heapCapacity →
      dst.heapCapacity < 2 ^ 32 → dst.getRow rowIdx + col.stop ≤ dst.heap →
      store dst col = .ok dst' → Fills dst dst' rowIdx col (value col))
    {cols : List TdcPlacedColumn} {start stop : Nat} (hplaced : Placed start cols stop)
    (hfit : dst.heapUsed ≤ dst.heapCapacity) (hcapacity : dst.heapCapacity < 2 ^ 32)
    (hroom : dst.getRow rowIdx + stop ≤ dst.heap) (h : cols.foldlM store dst = .ok dst') :
    ColumnsFilled dst dst' rowIdx start stop cols value := by
  have hext := (storeColumns (fun dst dst' col hfit hcapacity hroom hok =>
    (hstore dst dst' col hfit hcapacity hroom hok).stored) hplaced hfit hcapacity hroom h).1
  induction cols generalizing dst start with
  | nil =>
    obtain rfl := Except.ok.inj h
    exact ⟨hext, fun _ hc => absurd hc List.not_mem_nil, fun _ _ _ => rfl⟩
  | cons col cols ih =>
    rw [List.foldlM_cons] at h
    obtain ⟨mid, hcol, h⟩ := bind_eq_ok h
    have hle := hplaced.2.le
    have hfills := hstore dst mid col hfit hcapacity (by omega) hcol
    have hmid := hfills.stored.extended
    have hroom' : mid.getRow rowIdx + stop ≤ mid.heap := by rw [hmid.getRow, hmid.heap]; exact hroom
    have hcapacity' : mid.heapCapacity < 2 ^ 32 := by rw [hmid.heapCapacity]; exact hcapacity
    have hrest := (storeColumns (fun dst dst' col hfit hcapacity hroom hok =>
      (hstore dst dst' col hfit hcapacity hroom hok).stored) hplaced.2 hmid.heap_le hcapacity'
      hroom' h).1
    have htail := ih hplaced.2 hmid.heap_le hcapacity' hroom' h hrest
    have hheap := hmid.heap
    have hgetRow := hmid.getRow rowIdx
    refine ⟨hext, fun c hc => ?_, fun a ha hb => ?_⟩
    · rcases List.mem_cons.1 hc with rfl | hmem
      · -- the columns after this one leave its bytes and its string alone
        refine FilledColumn.frame ⟨hfills.stored.column, hfills.firstBytes⟩ hrest.rowWidth
          hrest.rowCapacity hrest.heapUsed (fun a ha hb => ?_) (fun a ha hb => ?_)
        · exact hrest.same a (Or.inl (by omega)) (Or.inl (by omega))
        · exact hrest.same a (Or.inr (by omega)) (Or.inl (by omega))
      · exact htail.filled c hmem
    · have hused := hmid.heapUsed
      have hused' := hrest.heapUsed
      have hout := ha col List.mem_cons_self
      rw [htail.same a (fun c hc => by
          rw [hgetRow]
          exact ha c (List.mem_cons_of_mem _ hc)) (by omega)]
      exact hmid.same a (by omega) (by omega)

end Columns

/-! ## States of new rows -/

section NewStates

variable (layout : AggregateLayout)

theorem decode_replicate_zero (n : Nat) : ByteMemory.decode (List.replicate n 0) = 0 := by
  induction n with
  | zero => rfl
  | succ n ih =>
    rw [List.replicate_succ, ByteMemory.decode, ih]
    rfl

theorem read_zero {m : ByteMemory} {start n : Nat}
    (h : ∀ a, start ≤ a → a < start + n → m a = 0) : m.read start n = List.replicate n 0 := by
  induction n generalizing start with
  | zero => rfl
  | succ n ih =>
    rw [ByteMemory.read, h start (Nat.le_refl _) (by omega), List.replicate_succ,
      ih fun a ha hb => h a (by omega) (by omega)]

theorem readInt64At_zero {t : TupleDataCollection} {start : Nat}
    (h : ∀ a, start ≤ a → a < start + 8 → t.rows a = 0) : t.readInt64At start = 0 := by
  rw [readInt64At, read_zero h, decode_replicate_zero]
  rfl

/-- A state over zeros: all kinds but the least and the greatest begin there. -/
theorem readState_zero {t : TupleDataCollection} {rowIdx : Nat} {agg : TdcAggregateDesc}
    (h : ∀ a, t.getRow rowIdx + agg.offset ≤ a → a < t.getRow rowIdx + agg.stop → t.rows a = 0) :
    (t.readState rowIdx agg).value = 0 ∧ (t.readState rowIdx agg).count = 0 := by
  have hwidth := agg.kind.eight_le_width
  have hstop : agg.stop = agg.offset + agg.kind.width := rfl
  refine ⟨readInt64At_zero fun a ha hb => h a ha (by omega), ?_⟩
  change (if _ then _ else _) = _
  by_cases havg : agg.kind = .avgNumeric
  · have hsixteen : agg.kind.width = 16 := by rw [havg]; rfl
    rw [if_pos havg]
    exact readInt64At_zero fun a ha hb => h a (by omega) (by omega)
  · exact if_neg havg

theorem initAggregate_cases (t : TupleDataCollection) (rowIdx : Nat) (agg : TdcAggregateDesc) :
    (t.initAggregate rowIdx agg = t ∧ initValue agg.kind = 0) ∨
      (t.initAggregate rowIdx agg = t.writeState rowIdx agg (initState agg.kind)) := by
  obtain ⟨kind, offset, srcColIdx, pgAggOid, numericScale⟩ := agg
  cases kind with
  | minInt64 | minNumeric | maxInt64 | maxNumeric => exact Or.inr rfl
  | countStar | countNonnull | countDistinctNonnull | sumInt64 | sumNumeric | avgNumeric =>
    exact Or.inl ⟨rfl, rfl⟩

theorem initAggregate_spec {t : TupleDataCollection} {rowIdx : Nat} {agg : TdcAggregateDesc}
    (h : ∀ a, t.getRow rowIdx + agg.offset ≤ a → a < t.getRow rowIdx + agg.stop → t.rows a = 0) :
    OnlyStates t (t.initAggregate rowIdx agg) rowIdx [agg] ∧
      (t.initAggregate rowIdx agg).readState rowIdx agg = initState agg.kind := by
  have hzero := readState_zero h
  rcases initAggregate_cases t rowIdx agg with ⟨heq, hinit⟩ | heq
  · rw [heq]
    exact ⟨OnlyStates.refl t rowIdx [agg], AggState.ext (hzero.1.trans hinit.symm) hzero.2⟩
  · rw [heq]
    exact writeState_spec t rowIdx agg _

/-- **New states**: over zeros the loop of `ScatterGroupOnly` leaves the states of a new row. -/
theorem initAggregates_spec {t : TupleDataCollection} {rowIdx : Nat}
    (h : ∀ agg ∈ layout.aggregates, ∀ a, t.getRow rowIdx + agg.offset ≤ a →
      a < t.getRow rowIdx + agg.stop → t.rows a = 0) :
    OnlyStates t (t.initAggregates layout rowIdx) rowIdx layout.aggregates ∧
      (t.initAggregates layout rowIdx).states layout rowIdx = initStates := by
  refine @foldl_states_self t rowIdx (fun agg => initState agg.kind) _ layout ?_
  intro agg hagg t' heq hsame
  have hrow : t'.getRow rowIdx = t.getRow rowIdx := by
    rw [TupleDataCollection.getRow, rowWidth_of_eq heq, TupleDataCollection.getRow]
  refine initAggregate_spec fun a ha hb => ?_
  rw [hrow] at ha hb
  rw [hsame a ha hb]
  exact h agg hagg a ha hb

/-- The states that `Scatter` leaves. -/
def scatteredStates (row : AggregateStates.ChunkRow) : States layout.aggregates := fun a =>
  scatteredState layout row (layout.aggregates.get a) a

theorem scatterStates_spec (t : TupleDataCollection) (rowIdx : Nat)
    (row : AggregateStates.ChunkRow) :
    OnlyStates t (layout.aggregates.zipIdx.foldl (fun dst agg =>
        dst.writeState rowIdx agg.1 (scatteredState layout row agg.1 agg.2)) t) rowIdx
        layout.aggregates ∧
      (layout.aggregates.zipIdx.foldl (fun dst agg =>
        dst.writeState rowIdx agg.1 (scatteredState layout row agg.1 agg.2)) t).states layout
          rowIdx = scatteredStates layout row := by
  have hfst : layout.aggregates.zipIdx.map Prod.fst = layout.aggregates := List.zipIdx_map_fst _ _
  have hall := @foldl_states t rowIdx (TdcAggregateDesc × Nat) Prod.fst
    (fun agg => scatteredState layout row agg.1 agg.2)
    (fun dst agg => dst.writeState rowIdx agg.1 (scatteredState layout row agg.1 agg.2))
    layout.aggregates.zipIdx (by rw [hfst]; exact layout.ordered)
    (fun agg _ t' _ _ => writeState_spec t' rowIdx agg.1 _)
  rw [hfst] at hall
  refine ⟨hall.1, funext fun a => ?_⟩
  exact hall.2 (layout.aggregates.get a, a.val)
    (List.mem_zipIdx_iff_getElem?.2 (List.getElem?_eq_getElem a.isLt))

end NewStates

/-! ## Rows -/

/-- A stored row: its group columns, and the states of its aggregates. -/
abbrev StoredRow (layout : AggregateLayout) : Type := List Datum × States layout.aggregates

/-- A row is filled. -/
structure FilledRow (layout : AggregateLayout) (t : TupleDataCollection) (rowIdx : Nat)
    (row : StoredRow layout) : Prop where
  columns : List.Forall₂ (FilledColumn t rowIdx) layout.columns row.1
  states : t.states layout rowIdx = row.2
  padding : ∀ k < layout.rowWidth, (∀ col ∈ layout.columns, k < col.offset ∨ col.stop ≤ k) →
    (∀ agg ∈ layout.aggregates, k < agg.offset ∨ agg.stop ≤ k) →
      t.rows (t.getRow rowIdx + k) = 0

/-- **A row store holds rows**; the rows that are not taken yet are zero. -/
structure HoldsRows (layout : AggregateLayout) (t : TupleDataCollection)
    (rows : List (StoredRow layout)) : Prop where
  rowWidth : t.rowWidth = layout.rowWidth
  rowCount : t.rowCount = rows.length
  count_le : t.rowCount ≤ t.rowCapacity
  heap_le : t.heapUsed ≤ t.heapCapacity
  heap_lt : t.heapCapacity < 2 ^ 32
  row : ∀ (r : Nat) (row : StoredRow layout), rows[r]? = some row → FilledRow layout t r row
  fresh : ∀ a, t.getRow t.rowCount ≤ a → a < t.heap → t.rows a = 0

section Rows

variable {layout : AggregateLayout} {t t' dst mid : TupleDataCollection} {rowIdx : Nat}
  {row : StoredRow layout} {rows : List (StoredRow layout)}

/-- **A filled row is not disturbed** by changes away from its bytes and the used heap. -/
theorem FilledRow.frame (h : FilledRow layout t rowIdx row) (hwidth : t'.rowWidth = t.rowWidth)
    (hcapacity : t'.rowCapacity = t.rowCapacity) (hused : t.heapUsed ≤ t'.heapUsed)
    (hrow : ∀ a, t.getRow rowIdx ≤ a → a < t.getRow rowIdx + layout.rowWidth →
      t'.rows a = t.rows a)
    (hheap : ∀ a, t.heap ≤ a → a < t.heap + t.heapUsed → t'.rows a = t.rows a) :
    FilledRow layout t' rowIdx row := by
  have hgetRow : t'.getRow rowIdx = t.getRow rowIdx := by
    rw [TupleDataCollection.getRow, hwidth, TupleDataCollection.getRow]
  refine ⟨?_, ?_, ?_⟩
  · have hall := (List.forall₂_and_left (p := fun c => c ∈ layout.columns) _ _).mpr
      ⟨fun _ hc => hc, h.columns⟩
    refine hall.imp fun col v hcol => hcol.2.frame hwidth hcapacity hused (fun a ha hb => ?_) hheap
    have hin := layout.placed.mem hcol.1
    exact hrow a (by omega) (by omega)
  · rw [← h.states]
    refine funext fun a => readState_congr hwidth fun b hb hb' => ?_
    have hin := layout.inside _ (List.get_mem layout.aggregates a)
    exact hrow b (by omega) (by omega)
  · intro k hk hcols haggs
    rw [hgetRow, hrow _ (Nat.le_add_right _ _) (by omega)]
    exact h.padding k hk hcols haggs

theorem HoldsRows.holds (h : HoldsRows layout t rows) :
    Holds layout.toTupleDataLayout t (rows.map Prod.fst) := by
  refine ⟨h.rowWidth, by rw [List.length_map]; exact h.rowCount, h.count_le, h.heap_le, h.heap_lt,
    ?_⟩
  intro r values hr
  rw [List.getElem?_map] at hr
  obtain ⟨row, hrow, rfl⟩ := Option.map_eq_some_iff.1 hr
  exact (h.row r row hrow).columns.imp fun col v hcol => hcol.column

/-- The rows before the last one are the same rows after an append. -/
theorem HoldsRows.append (h : HoldsRows layout t rows) (happ : t.appendRow = some (dst, rowIdx))
    {value : TdcPlacedColumn → Datum} {s : States layout.aggregates}
    (hcols : ColumnsFilled dst mid rowIdx 0 layout.rowWidth layout.columns value)
    (honly : OnlyStates mid t' rowIdx layout.aggregates)
    (hstates : t'.states layout rowIdx = s) :
    HoldsRows layout t' (rows ++ [(layout.columns.map value, s)]) := by
  unfold appendRow at happ
  split at happ
  · cases happ
  · rename_i hroom
    rw [Option.some.injEq, Prod.mk.injEq] at happ
    obtain ⟨rfl, rfl⟩ := happ
    have hext := hcols.extended
    have hend : t.getRow t.rowCount + t.rowWidth ≤ t.heap := getRow_le_heap (by omega)
    rw [h.rowWidth] at hend
    have hmidRow : mid.getRow t.rowCount = t.getRow t.rowCount := hext.getRow t.rowCount
    have hmidHeap : mid.heap = t.heap := hext.heap
    have hmeta := honly.eq
    have hwidth : t'.rowWidth = t.rowWidth := by rw [hmeta]; exact hext.rowWidth
    have hcap : t'.rowCapacity = t.rowCapacity := by rw [hmeta]; exact hext.rowCapacity
    have hcount : t'.rowCount = t.rowCount + 1 := by rw [hmeta]; exact hext.rowCount
    have hheapCap : t'.heapCapacity = t.heapCapacity := by rw [hmeta]; exact hext.heapCapacity
    have husedEq : t'.heapUsed = mid.heapUsed := by rw [hmeta]
    have hused : t.heapUsed ≤ t'.heapUsed := by rw [husedEq]; exact hext.heapUsed
    have hheap : t'.heap = t.heap := by
      rw [TupleDataCollection.heap, hwidth, hcap, TupleDataCollection.heap]
    have hgetRow : ∀ r, t'.getRow r = t.getRow r := by
      intro r
      rw [TupleDataCollection.getRow, hwidth, TupleDataCollection.getRow]
    -- a byte outside of the new row and of the free heap
    have hsame : ∀ a, a < t.getRow t.rowCount ∨ t.getRow t.rowCount + layout.rowWidth ≤ a →
        a < t.heap + t.heapUsed ∨ t.heap + t'.heapUsed ≤ a → t'.rows a = t.rows a := by
      intro a ha hb
      rw [husedEq] at hb
      rw [honly.same a fun agg hagg => by
        have hin := layout.inside agg hagg
        have hle : agg.offset ≤ agg.stop := Nat.le_add_right _ _
        rw [hmidRow]
        omega]
      exact hext.same a (by
        change a < t.getRow t.rowCount + 0 ∨ t.getRow t.rowCount + layout.rowWidth ≤ a
        omega) hb
    refine ⟨hwidth.trans h.rowWidth, ?_, ?_, ?_, ?_, ?_, ?_⟩
    · rw [hcount, List.length_append, List.length_singleton, ← h.rowCount]
    · rw [hcount, hcap]
      exact Nat.lt_of_not_le hroom
    · rw [husedEq, hheapCap, ← hext.heapCapacity]
      exact hext.heap_le
    · rw [hheapCap]
      exact h.heap_lt
    · intro r row hr
      rcases Nat.lt_or_ge r rows.length with hlt | hge
      · rw [List.getElem?_append_left hlt] at hr
        have hrowCount := h.rowCount
        have hbefore : t.getRow r + t.rowWidth ≤ t.getRow t.rowCount := getRow_le (by omega)
        rw [h.rowWidth] at hbefore
        refine (h.row r row hr).frame hwidth hcap hused (fun a ha hb => ?_) fun a ha hb => ?_
        · exact hsame a (by omega) (by omega)
        · exact hsame a (by omega) (by omega)
      · have hlast : r = rows.length := by
          have hlt := (List.getElem?_eq_some_iff.mp hr).1
          rw [List.length_append, List.length_singleton] at hlt
          omega
        subst hlast
        rw [List.getElem?_concat_length, Option.some.injEq] at hr
        subst hr
        rw [← h.rowCount]
        refine ⟨?_, hstates, ?_⟩
        · refine List.forall₂_map_right_iff.2 (List.forall₂_same.2 fun col hcol => ?_)
          -- the states lie apart from the column
          refine (hcols.filled col hcol).frame (by rw [hmeta]) (by rw [hmeta])
            (Nat.le_of_eq husedEq.symm) (fun a ha hb => ?_) fun a ha hb => ?_
          · refine honly.same a fun agg hagg => ?_
            have hapart := layout.apart agg hagg col hcol
            omega
          · refine honly.same a fun agg hagg => Or.inr ?_
            have hin := layout.inside agg hagg
            rw [hmidRow]
            omega
        · intro k hk hnotCol hnotAgg
          rw [hgetRow, honly.same _ fun agg hagg => by
            have hout := hnotAgg agg hagg
            rw [hmidRow]
            omega]
          refine (hcols.same _ (fun col hcol => ?_) (Or.inl ?_)).trans (h.fresh _ ?_ ?_)
          · have hout := hnotCol col hcol
            change _ < t.getRow t.rowCount + _ ∨ t.getRow t.rowCount + _ ≤ _
            omega
          · change _ < t.heap + t.heapUsed
            omega
          · exact Nat.le_add_right _ _
          · omega
    · intro a ha hb
      rw [hcount, hgetRow] at ha
      rw [hheap] at hb
      have hnext : t.getRow (t.rowCount + 1) = t.getRow t.rowCount + layout.rowWidth := by
        rw [TupleDataCollection.getRow, Nat.succ_mul, h.rowWidth, TupleDataCollection.getRow,
          h.rowWidth]
      rw [hsame a (by omega) (by omega)]
      exact h.fresh a (by omega) hb

theorem appendRow_eq (happ : t.appendRow = some (dst, rowIdx)) :
    t.rowCount < t.rowCapacity ∧ dst = { t with rowCount := t.rowCount + 1 } ∧
      rowIdx = t.rowCount := by
  unfold appendRow at happ
  split at happ
  · cases happ
  · rename_i hroom
    rw [Option.some.injEq, Prod.mk.injEq] at happ
    exact ⟨Nat.lt_of_not_le hroom, happ.1.symm, happ.2.symm⟩

/-- The columns of an appended row. -/
theorem HoldsRows.fill (h : HoldsRows layout t rows) (happ : t.appendRow = some (dst, rowIdx))
    {store : TupleDataCollection → TdcPlacedColumn → Except String TupleDataCollection}
    {value : TdcPlacedColumn → Datum}
    (hstore : ∀ (dst dst' : TupleDataCollection) col, dst.heapUsed ≤ dst.heapCapacity →
      dst.heapCapacity < 2 ^ 32 → dst.getRow rowIdx + col.stop ≤ dst.heap →
      store dst col = .ok dst' → Fills dst dst' rowIdx col (value col))
    (hok : layout.columns.foldlM store dst = .ok mid) :
    ColumnsFilled dst mid rowIdx 0 layout.rowWidth layout.columns value := by
  obtain ⟨hroom, rfl, rfl⟩ := appendRow_eq happ
  have hend : t.getRow t.rowCount + t.rowWidth ≤ t.heap := getRow_le_heap hroom
  rw [h.rowWidth] at hend
  exact fillColumns hstore layout.placed h.heap_le h.heap_lt hend hok

/-- The states of an appended row are zero before they are written. -/
theorem HoldsRows.zero_states (h : HoldsRows layout t rows)
    (happ : t.appendRow = some (dst, rowIdx)) {value : TdcPlacedColumn → Datum}
    (hcols : ColumnsFilled dst mid rowIdx 0 layout.rowWidth layout.columns value) :
    ∀ agg ∈ layout.aggregates, ∀ a, mid.getRow rowIdx + agg.offset ≤ a →
      a < mid.getRow rowIdx + agg.stop → mid.rows a = 0 := by
  obtain ⟨hroom, rfl, rfl⟩ := appendRow_eq happ
  have hend : t.getRow t.rowCount + t.rowWidth ≤ t.heap := getRow_le_heap hroom
  rw [h.rowWidth] at hend
  have hmidRow : mid.getRow t.rowCount = t.getRow t.rowCount := hcols.extended.getRow t.rowCount
  intro agg hagg a ha hb
  rw [hmidRow] at ha hb
  have hin := layout.inside agg hagg
  refine (hcols.same a (fun col hcol => ?_) (Or.inl ?_)).trans (h.fresh a ?_ ?_)
  · have hapart := layout.apart agg hagg col hcol
    change a < t.getRow t.rowCount + _ ∨ t.getRow t.rowCount + _ ≤ a
    omega
  · change a < t.heap + t.heapUsed
    omega
  · omega
  · omega

/-- **`ScatterGroupOnly` into an appended row**: the group columns of the chunk row, and the
states of a new row. -/
theorem HoldsRows.append_scatterGroup (h : HoldsRows layout t rows)
    (happ : t.appendRow = some (dst, rowIdx)) {row : AggregateStates.ChunkRow}
    (hok : scatterGroup layout dst rowIdx row = .ok t') :
    HoldsRows layout t' (rows ++ [(scatterGroupColumns layout.descs row.1 row.2, initStates)]) := by
  unfold scatterGroup at hok
  obtain ⟨mid, hmid, hpure⟩ := bind_eq_ok hok
  obtain rfl := Except.ok.inj hpure
  have hcols := h.fill happ (fun _ _ _ hfit hcapacity hroom hstep =>
    scatterGroupColumn_fills hfit hcapacity hroom hstep) hmid
  have hinit := initAggregates_spec layout (h.zero_states happ hcols)
  rw [scatterGroupColumns, DataChunk.groupColumns, TupleDataLayout.descs, List.map_map]
  exact h.append happ hcols hinit.1 hinit.2

/-- **`Scatter` into an appended row.** -/
theorem HoldsRows.append_scatter (h : HoldsRows layout t rows)
    (happ : t.appendRow = some (dst, rowIdx)) {row : AggregateStates.ChunkRow}
    (hok : scatter layout dst rowIdx row = .ok t') :
    HoldsRows layout t'
      (rows ++ [(scatterGroupColumns layout.descs row.1 row.2, scatteredStates layout row)]) := by
  unfold scatter at hok
  obtain ⟨mid, hmid, hpure⟩ := bind_eq_ok hok
  obtain rfl := Except.ok.inj hpure
  have hcols := h.fill happ (fun _ _ _ hfit hcapacity hroom hstep =>
    scatterGroupColumn_fills hfit hcapacity hroom hstep) hmid
  have hstates := scatterStates_spec layout mid rowIdx row
  rw [scatterGroupColumns, DataChunk.groupColumns, TupleDataLayout.descs, List.map_map]
  exact h.append happ hcols hstates.1 hstates.2

theorem mapError_eq_ok {α : Type} {x : Except String α} {f : String → String} {a : α}
    (h : x.mapError f = .ok a) : x = .ok a := by
  cases x with
  | error e => cases h
  | ok b => rw [Except.ok.inj h]

/-- **`CopyTdcRow` into an appended row**: the values and the states of the row it copies. -/
theorem HoldsRows.append_copy (h : HoldsRows layout t rows)
    (happ : t.appendRow = some (dst, rowIdx)) {src : TupleDataCollection} {srcRow : Nat}
    (hok : copyTdcRow layout src srcRow dst rowIdx = .ok t') :
    HoldsRows layout t' (rows ++
      [(src.decodeRow layout.toTupleDataLayout srcRow, src.states layout srcRow)]) := by
  unfold copyTdcRow at hok
  obtain ⟨mid, hmid, hpure⟩ := bind_eq_ok hok
  obtain rfl := Except.ok.inj hpure
  have hcols := h.fill happ (fun _ _ _ hfit hcapacity hroom hstep =>
    copyBuildColumn_fills hfit hcapacity hroom hstep) (mapError_eq_ok hmid)
  have hstates := copyAggregates_spec layout mid rowIdx src srcRow
  exact h.append happ hcols hstates.1 hstates.2

/-- **The new row of `AggregateHashTableCombineRow`**: the values of the row it copies, and the
states of a new row. -/
theorem HoldsRows.append_copyGroup (h : HoldsRows layout t rows)
    (happ : t.appendRow = some (dst, rowIdx)) {src : TupleDataCollection} {srcRow : Nat}
    (hok : copyGroup layout src srcRow dst rowIdx = .ok t') :
    HoldsRows layout t'
      (rows ++ [(src.decodeRow layout.toTupleDataLayout srcRow, initStates)]) := by
  unfold copyGroup at hok
  obtain ⟨mid, hmid, hpure⟩ := bind_eq_ok hok
  obtain rfl := Except.ok.inj hpure
  have hcols := h.fill happ (fun _ _ _ hfit hcapacity hroom hstep =>
    copyBuildColumn_fills hfit hcapacity hroom hstep) (mapError_eq_ok hmid)
  have hinit := initAggregates_spec layout (h.zero_states happ hcols)
  exact h.append happ hcols hinit.1 hinit.2

/-- **A change of the states of a row** leaves its columns and all other rows as they are. -/
theorem HoldsRows.onlyStates (h : HoldsRows layout t rows) {r : Nat}
    (hr : rows[r]? = some row) (honly : OnlyStates t t' r layout.aggregates)
    {s : States layout.aggregates} (hstates : t'.states layout r = s) :
    HoldsRows layout t' (rows.set r (row.1, s)) := by
  have hlt := (List.getElem?_eq_some_iff.1 hr).1
  have hmeta := honly.eq
  have hcount := h.rowCount
  have hcountLe := h.count_le
  have hwidth : t'.rowWidth = t.rowWidth := by rw [hmeta]
  have hgetRow : ∀ r, t'.getRow r = t.getRow r := honly.getRow
  have hheap : t'.heap = t.heap := by rw [hmeta]; rfl
  have hend : t.getRow r + t.rowWidth ≤ t.heap := getRow_le_heap (by omega)
  rw [h.rowWidth] at hend
  have hout : ∀ a, a < t.getRow r ∨ t.getRow r + layout.rowWidth ≤ a → t'.rows a = t.rows a := by
    intro a ha
    refine honly.same a fun agg hagg => ?_
    have hin := layout.inside agg hagg
    have hle : agg.offset ≤ agg.stop := Nat.le_add_right _ _
    omega
  refine ⟨hwidth.trans h.rowWidth, ?_, ?_, ?_, ?_, ?_, ?_⟩
  · rw [hmeta, List.length_set]
    exact h.rowCount
  · rw [hmeta]
    exact h.count_le
  · rw [hmeta]
    exact h.heap_le
  · rw [hmeta]
    exact h.heap_lt
  · intro r' row' hr'
    by_cases heq : r' = r
    · subst heq
      rw [List.getElem?_set_self hlt] at hr'
      obtain rfl := Option.some.inj hr'
      have hfilled := h.row r' row hr
      refine ⟨?_, hstates, ?_⟩
      · have hall := (List.forall₂_and_left (p := fun c => c ∈ layout.columns) _ _).mpr
          ⟨fun _ hc => hc, hfilled.columns⟩
        refine hall.imp fun col v hcol => hcol.2.frame hwidth (by rw [hmeta])
          (by rw [hmeta]) (fun a ha hb => ?_) fun a ha hb => hout a (by omega)
        refine honly.same a fun agg hagg => ?_
        have hapart := layout.apart agg hagg col hcol.1
        omega
      · intro k hk hnotCol hnotAgg
        rw [hgetRow, honly.same _ fun agg hagg => by
          have hnot := hnotAgg agg hagg
          omega]
        exact hfilled.padding k hk hnotCol hnotAgg
    · rw [List.getElem?_set_ne (Ne.symm heq)] at hr'
      have hlt' := (List.getElem?_eq_some_iff.1 hr').1
      have hend' : t.getRow r' + t.rowWidth ≤ t.heap := getRow_le_heap (by omega)
      rw [h.rowWidth] at hend'
      have hapart : t.getRow r' + layout.rowWidth ≤ t.getRow r ∨
          t.getRow r + layout.rowWidth ≤ t.getRow r' := by
        rw [← h.rowWidth]
        rcases Nat.lt_or_gt_of_ne heq with hless | hmore
        · exact Or.inl (getRow_le hless)
        · exact Or.inr (getRow_le hmore)
      exact (h.row r' row' hr').frame hwidth (by rw [hmeta]) (by rw [hmeta])
        (fun a ha hb => hout a (by omega)) fun a ha hb => hout a (by omega)
  · intro a ha hb
    have hcountEq : t'.rowCount = t.rowCount := by rw [hmeta]
    rw [hcountEq, hgetRow] at ha
    rw [hheap] at hb
    have hbefore : t.getRow r + t.rowWidth ≤ t.getRow t.rowCount := getRow_le (by omega)
    rw [h.rowWidth] at hbefore
    rw [hout a (by omega)]
    exact h.fresh a ha hb

/-! ## The heap a scattered row needs -/

theorem scatterGroupColumn_eq {col : TdcPlacedColumn} {chunk : DataChunk} {chunkRow : Nat}
    (h : scatterGroupColumn chunk chunkRow rowIdx dst col = .ok t') :
    ∃ rows, t' = { dst with
      heapUsed := dst.heapUsed + valueHeapBytes (chunk.get col.kind col.srcColIdx chunkRow)
      rows := rows } := by
  unfold scatterGroupColumn at h
  cases hkind : col.kind with
  | int32 | int64 | double =>
    rw [hkind] at h
    obtain rfl := Except.ok.inj h
    exact ⟨_, rfl⟩
  | stringRef =>
    rw [hkind] at h
    dsimp only at h
    split at h
    · cases h
    · rename_i mid ref hstore
      obtain ⟨rows, rfl⟩ := storeStringBytes_eq hstore
      obtain rfl := Except.ok.inj h
      exact ⟨_, rfl⟩

theorem scatterGroupColumn_of_fits {col : TdcPlacedColumn} {chunk : DataChunk} {chunkRow : Nat}
    (h : dst.heapUsed + valueHeapBytes (chunk.get col.kind col.srcColIdx chunkRow) ≤
      dst.heapCapacity) : ∃ t', scatterGroupColumn chunk chunkRow rowIdx dst col = .ok t' := by
  unfold scatterGroupColumn
  cases hkind : col.kind with
  | int32 | int64 | double => exact ⟨_, rfl⟩
  | stringRef =>
    rw [hkind] at h
    obtain ⟨mid, ref, hstore⟩ := storeStringBytes_of_fits h
    dsimp only
    rw [hstore]
    exact ⟨_, rfl⟩

/-- New states change no counter. -/
theorem initAggregates_eq (layout : AggregateLayout) (t : TupleDataCollection) (rowIdx : Nat) :
    ∃ rows, t.initAggregates layout rowIdx = { t with rows := rows } := by
  unfold initAggregates
  induction layout.aggregates generalizing t with
  | nil => exact ⟨t.rows, rfl⟩
  | cons agg aggs ih =>
    have hstep : ∃ rows, t.initAggregate rowIdx agg = { t with rows := rows } := by
      unfold initAggregate
      split <;> exact ⟨_, rfl⟩
    obtain ⟨rows, hrows⟩ := hstep
    obtain ⟨rows', hrows'⟩ := ih (t.initAggregate rowIdx agg)
    rw [List.foldl_cons, hrows', hrows]
    exact ⟨rows', rfl⟩

/-- **A scattered row** takes the heap bytes of its values, and changes no counter else. -/
theorem scatterGroup_eq {chunkRow : AggregateStates.ChunkRow}
    (h : scatterGroup layout dst rowIdx chunkRow = .ok t') :
    ∃ rows, t' = { dst with
      heapUsed := dst.heapUsed +
        rowHeapBytes (chunkRow.1.groupColumns layout.descs chunkRow.2)
      rows := rows } := by
  unfold scatterGroup at h
  obtain ⟨mid, hmid, hpure⟩ := bind_eq_ok h
  obtain rfl := Except.ok.inj hpure
  have hall : ∀ (cols : List TdcPlacedColumn) (dst mid : TupleDataCollection),
      cols.foldlM (scatterGroupColumn chunkRow.1 chunkRow.2 rowIdx) dst = .ok mid →
        ∃ rows, mid = { dst with
          heapUsed := dst.heapUsed + rowHeapBytes (cols.map fun col =>
            chunkRow.1.get col.kind col.srcColIdx chunkRow.2)
          rows := rows } := by
    intro cols
    induction cols with
    | nil =>
      intro dst mid hok
      obtain rfl := Except.ok.inj hok
      exact ⟨dst.rows, rfl⟩
    | cons col cols ih =>
      intro dst mid hok
      rw [List.foldlM_cons] at hok
      obtain ⟨next, hnext, hrest⟩ := bind_eq_ok hok
      obtain ⟨rows, rfl⟩ := scatterGroupColumn_eq hnext
      obtain ⟨rows', rfl⟩ := ih _ mid hrest
      refine ⟨rows', ?_⟩
      rw [rowHeapBytes, rowHeapBytes, List.map_cons, List.map_cons, List.sum_cons, ← Nat.add_assoc]
  obtain ⟨rows, rfl⟩ := hall _ _ _ hmid
  obtain ⟨rows', hrows'⟩ := initAggregates_eq layout { dst with
    heapUsed := dst.heapUsed + rowHeapBytes (layout.columns.map fun col =>
      chunkRow.1.get col.kind col.srcColIdx chunkRow.2)
    rows := rows } rowIdx
  refine ⟨rows', ?_⟩
  rw [DataChunk.groupColumns, TupleDataLayout.descs, List.map_map]
  exact hrows'

/-- A row that the heap has room for is scattered. -/
theorem scatterGroup_of_fits {chunkRow : AggregateStates.ChunkRow}
    (h : dst.heapUsed + rowHeapBytes (chunkRow.1.groupColumns layout.descs chunkRow.2) ≤
      dst.heapCapacity) : ∃ t', scatterGroup layout dst rowIdx chunkRow = .ok t' := by
  rw [DataChunk.groupColumns, TupleDataLayout.descs, List.map_map] at h
  have hall : ∀ (cols : List TdcPlacedColumn) (dst : TupleDataCollection),
      dst.heapUsed + rowHeapBytes (cols.map fun col =>
        chunkRow.1.get col.kind col.srcColIdx chunkRow.2) ≤ dst.heapCapacity →
      ∃ mid, cols.foldlM (scatterGroupColumn chunkRow.1 chunkRow.2 rowIdx) dst = .ok mid := by
    intro cols
    induction cols with
    | nil => exact fun dst _ => ⟨dst, rfl⟩
    | cons col cols ih =>
      intro dst hfits
      rw [rowHeapBytes, List.map_cons, List.map_cons, List.sum_cons, ← Nat.add_assoc] at hfits
      obtain ⟨next, hnext⟩ := @scatterGroupColumn_of_fits dst rowIdx col chunkRow.1 chunkRow.2
        (by omega)
      obtain ⟨rows, heq⟩ := scatterGroupColumn_eq hnext
      have hrest : next.heapUsed + rowHeapBytes (cols.map fun col =>
          chunkRow.1.get col.kind col.srcColIdx chunkRow.2) ≤ next.heapCapacity := by
        rw [heq]
        exact hfits
      obtain ⟨mid, hmid⟩ := ih next hrest
      refine ⟨mid, ?_⟩
      rw [List.foldlM_cons, hnext]
      exact hmid
  obtain ⟨mid, hmid⟩ := hall layout.columns dst h
  refine ⟨mid.initAggregates layout rowIdx, ?_⟩
  unfold scatterGroup scatterGroupOnly
  rw [hmid]
  rfl

/-- A new row store holds no rows. -/
theorem allocate_holdsRows {rowCapacity heapCapacity : Nat} (hcapacity : heapCapacity < 2 ^ 32)
    (h : allocate rowCapacity layout.rowWidth heapCapacity = .ok t) : HoldsRows layout t [] := by
  unfold allocate at h
  obtain ⟨u, -, hpure⟩ := bind_eq_ok h
  obtain rfl := Except.ok.inj hpure
  exact ⟨rfl, rfl, Nat.zero_le _, Nat.zero_le _, hcapacity, fun _ _ hr => absurd hr (by simp),
    fun _ _ _ => rfl⟩

end Rows
end TupleDataCollection
end PgYaap
