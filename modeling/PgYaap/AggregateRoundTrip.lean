import PgYaap.AggregateRowsStore

/-! # Scattering and gathering rows with aggregates

A chunk row is scattered into the row store and gathered back later, after other rows have been
appended and changed. Its group columns come back as they were, and so do its aggregates, except
for averages: what is gathered is divided by the count, which is one, but only after it has been
brought to the scale of the output. -/
namespace PgYaap

open ColumnSlots AggregateStates HashJoinBuild NullFlags

namespace TupleDataCollection

variable {layout : AggregateLayout}

/-! ## Writes to a row store -/

/-- What writes to row `i` of a row store: a row is appended, from a chunk or from another store,
or the states of a row are changed. -/
inductive WritesRow (layout : AggregateLayout) (i : Nat) :
    TupleDataCollection → TupleDataCollection → Prop
  | scatter {t dst t' : TupleDataCollection} {row : AggregateStates.ChunkRow}
      (happ : t.appendRow = some (dst, i))
      (hok : TupleDataCollection.scatter layout dst i row = .ok t') : WritesRow layout i t t'
  | scatterGroup {t dst t' : TupleDataCollection} {row : AggregateStates.ChunkRow}
      (happ : t.appendRow = some (dst, i))
      (hok : TupleDataCollection.scatterGroup layout dst i row = .ok t') : WritesRow layout i t t'
  | copy {t dst t' src : TupleDataCollection} {srcRow : Nat}
      (happ : t.appendRow = some (dst, i))
      (hok : copyTdcRow layout src srcRow dst i = .ok t') : WritesRow layout i t t'
  | copyGroup {t dst t' src : TupleDataCollection} {srcRow : Nat}
      (happ : t.appendRow = some (dst, i))
      (hok : TupleDataCollection.copyGroup layout src srcRow dst i = .ok t') :
      WritesRow layout i t t'
  | update {t : TupleDataCollection} {row : AggregateStates.ChunkRow} (hi : i < t.rowCount) :
      WritesRow layout i t (t.updateAggregatesAt layout i row)
  | combine {t src : TupleDataCollection} {srcRow : Nat} (hi : i < t.rowCount) :
      WritesRow layout i t (t.combineAggregatesAt layout i src srcRow)

/-- One or more writes to other rows than `r`. -/
def WritesOthers (layout : AggregateLayout) (r : Nat) :
    TupleDataCollection → TupleDataCollection → Prop :=
  Relation.ReflTransGen fun t t' => ∃ i, i ≠ r ∧ WritesRow layout i t t'

/-- **The row stores of a layout**: what writes make of a new one. -/
inductive RowStore (layout : AggregateLayout) : TupleDataCollection → Prop
  | new {rowCapacity heapCapacity : Nat} {t : TupleDataCollection}
      (hheap : heapCapacity < 2 ^ 32)
      (halloc : allocate rowCapacity layout.rowWidth heapCapacity = .ok t) : RowStore layout t
  | write {t t' : TupleDataCollection} {i : Nat} (h : RowStore layout t)
      (hwrite : WritesRow layout i t t') : RowStore layout t'

/-- A write to a row leaves all others as they are. -/
theorem WritesRow.holds {i : Nat} {t t' : TupleDataCollection} (h : WritesRow layout i t t')
    {rows : List (StoredRow layout)} (hrows : HoldsRows layout t rows) :
    ∃ rows', HoldsRows layout t' rows' ∧ ∀ r, r ≠ i → r < rows.length → rows'[r]? = rows[r]? := by
  have happend : ∀ row : StoredRow layout, ∀ r, r ≠ i → r < rows.length →
      (rows ++ [row])[r]? = rows[r]? := fun row r _ hr => List.getElem?_append_left hr
  cases h with
  | scatter happ hok => exact ⟨_, hrows.append_scatter happ hok, happend _⟩
  | scatterGroup happ hok => exact ⟨_, hrows.append_scatterGroup happ hok, happend _⟩
  | copy happ hok => exact ⟨_, hrows.append_copy happ hok, happend _⟩
  | copyGroup happ hok => exact ⟨_, hrows.append_copyGroup happ hok, happend _⟩
  | update hi =>
    rw [hrows.rowCount] at hi
    have hspec := updateAggregatesAt_spec layout t i
    refine ⟨_, hrows.onlyStates (List.getElem?_eq_getElem hi) (hspec _).1 (hspec _).2, ?_⟩
    exact fun r hr _ => List.getElem?_set_ne (Ne.symm hr)
  | combine hi =>
    rw [hrows.rowCount] at hi
    have hspec := combineAggregatesAt_spec layout t i
    refine ⟨_, hrows.onlyStates (List.getElem?_eq_getElem hi) (hspec _ _).1 (hspec _ _).2, ?_⟩
    exact fun r hr _ => List.getElem?_set_ne (Ne.symm hr)

theorem RowStore.holds {t : TupleDataCollection} (h : RowStore layout t) :
    ∃ rows, HoldsRows layout t rows := by
  induction h with
  | new hheap halloc => exact ⟨[], allocate_holdsRows hheap halloc⟩
  | write _ hwrite ih =>
    obtain ⟨rows, hrows⟩ := ih
    obtain ⟨rows', hrows', -⟩ := hwrite.holds hrows
    exact ⟨rows', hrows'⟩

theorem WritesOthers.holds {r : Nat} {t t' : TupleDataCollection}
    (h : WritesOthers layout r t t') {rows : List (StoredRow layout)}
    (hrows : HoldsRows layout t rows) {row : StoredRow layout} (hr : rows[r]? = some row) :
    ∃ rows', HoldsRows layout t' rows' ∧ rows'[r]? = some row := by
  induction h with
  | refl => exact ⟨rows, hrows, hr⟩
  | tail _ hwrite ih =>
    obtain ⟨i, hne, hwrite⟩ := hwrite
    obtain ⟨mid, hmid, hrow⟩ := ih
    obtain ⟨rows', hrows', hsame⟩ := hwrite.holds hmid
    refine ⟨rows', hrows', ?_⟩
    rw [hsame r (Ne.symm hne) (List.getElem?_eq_some_iff.1 hrow).1]
    exact hrow

/-! ## Gathering -/

/-- `Gather`. -/
def gather (layout : AggregateLayout) (t : TupleDataCollection) (rowIdx : Nat) :
    Except String (List CellWrite) := do
  let aggregates ← gatherAggregates layout.columns.length (t.states layout rowIdx)
  return NullFlags.gather layout.toTupleDataLayout t rowIdx ++ aggregates

/-- **A row comes back**: gathered into any chunk, every column has the value that the chunk row
had in its slot, and every aggregate the value in the slot behind the columns. -/
def RoundTrips (layout : AggregateLayout) (t : TupleDataCollection) (rowIdx : Nat)
    (row : AggregateStates.ChunkRow) : Prop :=
  ∀ (out : DataChunk) (outRow : Nat), ∃ writes, gather layout t rowIdx = .ok writes ∧
    (∀ col ∈ layout.columns,
      (writes.foldl (writeCell outRow) (reset out)).get col.kind col.srcColIdx outRow =
        row.1.get col.kind col.srcColIdx row.2) ∧
    ∀ a < layout.aggregates.length,
      (writes.foldl (writeCell outRow) (reset out)).getInt64 (layout.columns.length + a) outRow =
        row.1.getInt64 (layout.columns.length + a) row.2

section Gather

variable {t : TupleDataCollection} {rowIdx : Nat} {row : AggregateStates.ChunkRow}

theorem finalizeState_of_ne {kind : TdcAggKind} (h : kind ≠ .avgNumeric) (s : AggState kind) :
    finalizeState kind s = .ok s.value := if_neg h

/-- An average of one value is the value, brought to the scale of the output. -/
theorem finalizeState_one {kind : TdcAggKind} (havg : kind = .avgNumeric) {s : AggState kind}
    (hcount : s.count = 1) {v : Int64} (h : finalizeState kind s = .ok v) :
    v.toInt = s.value.toInt * avgNumericScaleFactor := by
  have hne : ¬ s.count = 0 := by
    rw [hcount]
    decide
  have hone : s.count.toInt = 1 := by
    rw [hcount]
    rfl
  rw [finalizeState, if_pos havg, if_neg hne, hone, Int.tdiv_one] at h
  dsimp only at h
  split at h
  · rename_i hrange
    have hmax : Int64.maxValue.toInt = 2 ^ 63 - 1 := Int64.toInt_maxValue
    have hmin : Int64.minValue.toInt = -2 ^ 63 := Int64.toInt_minValue
    rw [← Except.ok.inj h]
    exact Int64.toInt_ofInt_of_le (by omega) (by omega)
  · cases h

theorem finalizeState_zero {kind : TdcAggKind} (havg : kind = .avgNumeric) {s : AggState kind}
    (hvalue : s.value = 0) (hcount : s.count = 1) : finalizeState kind s = .ok 0 := by
  have hne : ¬ s.count = 0 := by
    rw [hcount]
    decide
  rw [finalizeState, if_pos havg, if_neg hne, hvalue, hcount]
  rfl

/-- Averages of zero are what `Scatter` and `Gather` keep. -/
def AveragesZero (layout : AggregateLayout) (row : AggregateStates.ChunkRow) : Prop :=
  ∀ (a : Nat) (agg : TdcAggregateDesc), layout.aggregates[a]? = some agg →
    agg.kind = .avgNumeric → row.1.getInt64 (layout.columns.length + a) row.2 = 0

theorem finalize_scattered (hzero : AveragesZero layout row)
    (a : Fin layout.aggregates.length) :
    finalizeState (layout.aggregates.get a).kind (scatteredStates layout row a) =
      .ok (row.1.getInt64 (layout.columns.length + a) row.2) := by
  by_cases havg : (layout.aggregates.get a).kind = .avgNumeric
  · have hv := hzero a _ (List.getElem?_eq_getElem a.isLt) havg
    rw [hv]
    exact finalizeState_zero havg hv (if_pos havg)
  · exact finalizeState_of_ne havg _

/-- **Writes that carry a chunk row**: without flags, every value to the slot that it comes from,
and those of the given places among them. -/
structure Carries (places : List TdcColumnDesc) (writes : List CellWrite)
    (row : AggregateStates.ChunkRow) : Prop where
  origin : ∀ w ∈ writes, w.flag = none ∧ ∃ kind, w.value = some (row.1.get kind w.slot row.2)
  written : ∀ place ∈ places, ∃ w ∈ writes, w.slot = place.srcColIdx ∧
    w.value = some (row.1.get place.kind place.srcColIdx row.2)

/-- Values that are written to the slots they come from are there afterwards. -/
theorem Carries.get {places : List TdcColumnDesc} {writes : List CellWrite} {out : DataChunk}
    {outRow : Nat} (h : Carries places writes row) (hflat : Flat out) {place : TdcColumnDesc}
    (hplace : place ∈ places) :
    (writes.foldl (writeCell outRow) out).get place.kind place.srcColIdx outRow =
      row.1.get place.kind place.srcColIdx row.2 := by
  have hagree := @Flat.foldl_agree out outRow place.srcColIdx
    (row.1.get place.kind place.srcColIdx row.2) writes hflat (fun w hw => (h.origin w hw).1) (by
      intro w hw u hslot hvalue hkind
      obtain ⟨kind', hkind'⟩ := (h.origin w hw).2
      obtain rfl := Option.some.inj (hvalue.symm.trans hkind')
      rw [DataChunk.get_kind, DataChunk.get_kind] at hkind
      rw [hkind, hslot]) (Or.inr (h.written place hplace))
  rw [DataChunk.get_kind] at hagree
  exact hagree.1

/-- Where the columns and the aggregates of a layout come from in a chunk. -/
def places (layout : AggregateLayout) : List TdcColumnDesc :=
  layout.descs ++
    (List.range layout.aggregates.length).map fun a => ⟨.int64, layout.columns.length + a⟩

/-- **What is gathered from a scattered row** comes from the slot that it is written to. -/
theorem gather_carries
    (hcols : ∀ col ∈ layout.columns,
      t.decodeColumn rowIdx col = row.1.get col.kind col.srcColIdx row.2)
    (hstates : t.states layout rowIdx = scatteredStates layout row)
    (hzero : AveragesZero layout row) :
    ∃ writes, gather layout t rowIdx = .ok writes ∧ Carries (places layout) writes row := by
  have hgather : gatherAggregates layout.columns.length (t.states layout rowIdx) = .ok
      (aggregateWrites layout.columns.length fun a : Fin layout.aggregates.length =>
        row.1.getInt64 (layout.columns.length + a) row.2) := by
    rw [hstates]
    exact gatherAggregates_eq_ok (finalize_scattered hzero)
  refine ⟨NullFlags.gather layout.toTupleDataLayout t rowIdx ++
    aggregateWrites layout.columns.length fun a : Fin layout.aggregates.length =>
      row.1.getInt64 (layout.columns.length + a) row.2, by rw [gather, hgather]; rfl, ?_, ?_⟩
  · intro w hw
    rcases List.mem_append.1 hw with hw | hw
    · obtain ⟨col, hcol, rfl⟩ := List.mem_map.1 hw
      exact ⟨rfl, col.kind, congrArg some (hcols col hcol)⟩
    · obtain ⟨a, rfl⟩ := mem_aggregateWrites.1 hw
      exact ⟨rfl, .int64, rfl⟩
  · intro place hplace
    rcases List.mem_append.1 hplace with hplace | hplace
    · obtain ⟨col, hcol, rfl⟩ := List.mem_map.1 hplace
      exact ⟨_, List.mem_append_left _ (List.mem_map.2 ⟨col, hcol, rfl⟩), rfl,
        congrArg some (hcols col hcol)⟩
    · obtain ⟨a, ha, rfl⟩ := List.mem_map.1 hplace
      exact ⟨_, List.mem_append_right _
        (mem_aggregateWrites.2 ⟨⟨a, List.mem_range.1 ha⟩, rfl⟩), rfl, rfl⟩

/-- **When a row comes back.** -/
theorem comesBack_iff
    (hcols : ∀ col ∈ layout.columns,
      t.decodeColumn rowIdx col = row.1.get col.kind col.srcColIdx row.2)
    (hstates : t.states layout rowIdx = scatteredStates layout row) :
    RoundTrips layout t rowIdx row ↔ AveragesZero layout row := by
  constructor
  · intro h a agg hagg havg
    obtain ⟨writes, hok, -, haggs⟩ := h row.1 0
    obtain ⟨hlt, rfl⟩ := List.getElem?_eq_some_iff.1 hagg
    unfold gather at hok
    obtain ⟨aggregates, hgather, hpure⟩ := bind_eq_ok hok
    obtain rfl := Except.ok.inj hpure
    obtain ⟨v, hv, rfl⟩ := of_gatherAggregates_eq_ok hgather
    -- the slot of the aggregate is written once, after the columns
    have hflat : Flat ((NullFlags.gather layout.toTupleDataLayout t rowIdx).foldl (writeCell 0)
        (reset row.1)) := (Flat.reset row.1).foldl
    have hlast := (@Flat.foldl_agree _ 0 (layout.columns.length + a) (.int64 (v ⟨a, hlt⟩)) _ hflat
      (fun w hw => by
        obtain ⟨b, rfl⟩ := mem_aggregateWrites.1 hw
        rfl)
      (fun w hw u hslot hvalue _ => by
        obtain ⟨b, rfl⟩ := mem_aggregateWrites.1 hw
        have hb : b = ⟨a, hlt⟩ := Fin.ext (Nat.add_left_cancel hslot)
        rw [← Option.some.inj hvalue, hb])
      (Or.inr ⟨_, mem_aggregateWrites.2 ⟨⟨a, hlt⟩, rfl⟩, rfl, rfl⟩)).1
    have hback := haggs a hlt
    rw [List.foldl_append] at hback
    have hsame : v ⟨a, hlt⟩ = row.1.getInt64 (layout.columns.length + a) row.2 :=
      (Datum.int64.inj hlast).symm.trans hback
    have hfinal := hv ⟨a, hlt⟩
    rw [hstates] at hfinal
    have hscaled := finalizeState_one havg (if_pos havg) hfinal
    rw [hsame] at hscaled
    change _ = (row.1.getInt64 (layout.columns.length + a) row.2).toInt * _ at hscaled
    rw [avgNumericScaleFactor] at hscaled
    exact Int64.toInt_inj.1 (by
      rw [Int64.toInt_zero]
      omega)
  · intro hzero out outRow
    obtain ⟨writes, hok, hcarries⟩ := gather_carries hcols hstates hzero
    refine ⟨writes, hok, fun col hcol => ?_, fun a ha => ?_⟩
    · exact hcarries.get (Flat.reset out)
        (List.mem_append_left _ (List.mem_map.2 ⟨col, hcol, rfl⟩))
    · exact Datum.int64.inj (hcarries.get (Flat.reset out)
        (List.mem_append_right _ (List.mem_map.2 ⟨a, List.mem_range.2 ha, rfl⟩)))

end Gather

/-! ## Rows of built layouts -/

open AggregateLayout

/-- What is asked of a built layout: its fields lie apart and inside the row, and the width of the
row fits into its 16 bits. -/
structure FieldsApart (layout : AggregateLayout) : Prop where
  pairwise : layout.fields.Pairwise Apart
  inside : ∀ field ∈ layout.fields, field.1 ≤ field.2 ∧ field.2 ≤ layout.rowWidth
  rowWidth_lt : layout.rowWidth < 2 ^ 16

theorem fieldsApart_of_build {calls : List AppendCall} (h : build calls = .ok layout) :
    FieldsApart layout := by
  have hbounded := bounded_of_build h
  have hcols := hbounded.columns_le
  have haggs := hbounded.aggregates_le
  have hwidth := hbounded.rowWidth_le
  refine ⟨layout.fields_pairwise, fun field hfield => layout.fields_inside hfield, ?_⟩
  omega

theorem forall₂_map_apply {α β : Type} {R : α → β → Prop} {f : α → β} {l : List α}
    (h : List.Forall₂ R l (l.map f)) : ∀ a ∈ l, R a (f a) :=
  List.forall₂_same.1 (List.forall₂_map_right_iff.1 h)

/-- A chunk row that is scattered into a row store comes back after any writes to other rows,
exactly when all its averages are zero. -/
theorem RowStore.scattered_comesBack_iff {t dst t₁ t₂ : TupleDataCollection} (hstore : RowStore layout t)
    {r : Nat} (happ : t.appendRow = some (dst, r)) {row : AggregateStates.ChunkRow}
    (hscatter : scatter layout dst r row = .ok t₁) (hothers : WritesOthers layout r t₁ t₂) :
    RoundTrips layout t₂ r row ↔ AveragesZero layout row := by
  obtain ⟨rows, hrows⟩ := hstore.holds
  have hr : r = rows.length := by
    rw [(appendRow_eq happ).2.2]
    exact hrows.rowCount
  have hrow : (rows ++ [(scatterGroupColumns layout.descs row.1 row.2,
      scatteredStates layout row)])[r]? =
      some (scatterGroupColumns layout.descs row.1 row.2, scatteredStates layout row) := by
    rw [hr]
    exact List.getElem?_concat_length
  obtain ⟨rows', hrows', hrow'⟩ := hothers.holds (hrows.append_scatter happ hscatter) hrow
  have hfilled := hrows'.row r _ hrow'
  have hcolumns := hfilled.columns
  rw [scatterGroupColumns, DataChunk.groupColumns, TupleDataLayout.descs, List.map_map]
    at hcolumns
  apply comesBack_iff
  · exact fun col hcol => (forall₂_map_apply hcolumns col hcol).column.value
  · exact hfilled.states

/-- **Scatter, then gather.** In every built layout the fields lie apart and inside the row; a
chunk row that is scattered into a row store comes back after any writes to other rows exactly
when all its averages are zero. -/
theorem scatter_gather_roundTrips_iff {calls : List AppendCall} (hbuild : build calls = .ok layout)
    {t dst t₁ t₂ : TupleDataCollection} (hstore : RowStore layout t) {r : Nat}
    (happ : t.appendRow = some (dst, r)) {row : AggregateStates.ChunkRow}
    (hscatter : scatter layout dst r row = .ok t₁) (hothers : WritesOthers layout r t₁ t₂) :
    (FieldsApart layout ∧ RoundTrips layout t₂ r row) ↔ AveragesZero layout row := by
  have hiff := hstore.scattered_comesBack_iff happ hscatter hothers
  exact ⟨fun h => hiff.1 h.2, fun h => ⟨fieldsApart_of_build hbuild, hiff.2 h⟩⟩

/-- A group column and an average. -/
def averageCalls : List AppendCall := [.column .int32 0 23 0, .aggregate .avgNumeric 1 2103 0]

/-- The layout of `averageCalls`. -/
def averageLayout : AggregateLayout where
  columns := [⟨⟨.int32, 0⟩, 0, 23, 0⟩]
  rowWidth := 24
  placed := ⟨Nat.zero_le _, show 0 + 4 ≤ 24 by decide⟩
  aggregates := [⟨.avgNumeric, 8, 1, 2103, 0⟩]
  inside := by decide
  ordered := by decide
  apart := by decide

/-- A new row store of `averageLayout`, and the same with a row taken. -/
def averageStore (rowCount : Nat) : TupleDataCollection := ⟨24, 4, rowCount, 0, 0, fun _ => 0⟩

theorem averageStore_rowStore : RowStore averageLayout (averageStore 0) :=
  @RowStore.new averageLayout 4 0 _ (by decide) rfl

/-- A row of `averageLayout` whose average is `v`. -/
def averageRow (v : Int64) : AggregateStates.ChunkRow := (int64Chunk 1 (fun _ => v) fun _ => 0, 0)

theorem scatter_gather_roundTrips_zero : ∃ t, scatter averageLayout (averageStore 1) 0
    (averageRow 0) = .ok t ∧
    ((FieldsApart averageLayout ∧ RoundTrips averageLayout t 0 (averageRow 0)) ↔
      AveragesZero averageLayout (averageRow 0)) :=
  ⟨_, rfl, scatter_gather_roundTrips_iff (show build averageCalls = .ok averageLayout from rfl)
    averageStore_rowStore rfl rfl Relation.ReflTransGen.refl⟩

/-- **An average does not come back**: 5 is scattered, and gathered as `5 * 10 ^ 12`. -/
theorem average_not_roundTrips : ∃ t, build averageCalls = .ok averageLayout ∧
    scatter averageLayout (averageStore 1) 0 (averageRow 5) = .ok t ∧
    ¬ RoundTrips averageLayout t 0 (averageRow 5) := by
  refine ⟨_, rfl, rfl, fun h => ?_⟩
  have hzero := (averageStore_rowStore.scattered_comesBack_iff rfl rfl Relation.ReflTransGen.refl).1 h
  exact absurd (hzero 0 _ rfl rfl) (by decide)

end TupleDataCollection
end PgYaap
