import PgYaap.HeapColumnsRoundTrip

/-! # Columns through the row store

The output reads a column from the row store at the place the layout has for its slot and
kind. The slots of a scan are distinct in every array, so the place is that of the column, and
what is encoded is what the deformer wrote. -/
namespace PgYaap
namespace HeapColumns

open ColumnSlots HashJoinProbe StoredNumeric TupleDataCollection

/-! ## The place of a column -/

section Layout

variable {schema : List ColumnSchema} {layout layout' : TupleDataLayout} {col : ColumnSchema}

/-- What the output looks a column up by, and the scale it finds. -/
def placeKey (c : TdcPlacedColumn) : (Option TdcColumnKind × Nat) × Int :=
  ((some c.kind, c.srcColIdx), c.numericScale)

def columnKey (col : ColumnSchema) : (Option TdcColumnKind × Nat) × Int :=
  ((col.decodeKind.toTdcKind, col.chunkSlot), columnNumericScale col)

theorem appendSchemaColumn_keys (h : appendSchemaColumn layout col = .ok layout') :
    layout'.columns.map placeKey = layout.columns.map placeKey ++ [columnKey col] := by
  rw [appendSchemaColumn] at h
  cases hkind : col.decodeKind.toTdcKind with
  | none =>
    rw [hkind] at h
    exact absurd h nofun
  | some kind =>
    rw [hkind, Option.elim_some, TupleDataLayout.appendColumn] at h
    by_cases hfull : 32 ≤ layout.columns.length
    · rw [if_pos hfull] at h
      exact absurd h nofun
    · rw [if_neg hfull] at h
      obtain rfl := Except.ok.inj h
      rw [List.map_append, columnKey, hkind]
      rfl

/-- The layout has the columns of the schema in their order. -/
theorem foldlM_appendSchemaColumn_keys
    (h : schema.foldlM appendSchemaColumn layout = .ok layout') :
    layout'.columns.map placeKey = layout.columns.map placeKey ++ schema.map columnKey := by
  induction schema generalizing layout with
  | nil =>
    obtain rfl := Except.ok.inj h
    exact (List.append_nil _).symm
  | cons col schema ih =>
    rw [List.foldlM_cons] at h
    cases hcol : appendSchemaColumn layout col with
    | error e =>
      rw [hcol] at h
      exact absurd h nofun
    | ok mid =>
      rw [hcol] at h
      rw [ih h, appendSchemaColumn_keys hcol, List.append_assoc]
      rfl

theorem buildColumnOnlyLayout_keys (h : buildColumnOnlyLayout schema = .ok layout) :
    layout.columns.map placeKey = schema.map columnKey :=
  foldlM_appendSchemaColumn_keys h

/-- Kinds that go to one array of the store are numbered by one counter. -/
theorem seqScanCounter_eq_of_toTdcKind_eq {kind kind' : ColumnDecodeKind}
    (h : kind.toTdcKind = kind'.toTdcKind) : seqScanCounter kind = seqScanCounter kind' := by
  cases kind <;> cases kind' <;> first | rfl | exact absurd h (by decide)

/-- The columns of a scan are told apart by their arrays and slots. -/
theorem buildSeqScanColumns_nodup {rel : List Attribute} {expectedVarno : Nat}
    {refs : List ColumnRef} (h : buildSeqScanColumns rel expectedVarno refs = some schema) :
    (schema.map fun col => (col.decodeKind.toTdcKind, col.chunkSlot)).Nodup := by
  have hpairs := (buildSeqScanColumnsFrom_handedOut h).1.nodup
  rw [List.nodup_map_iff_inj_on (List.Nodup.of_map _ hpairs)]
  intro col hcol col' hcol' heq
  obtain ⟨hkind, hslot⟩ := Prod.mk.inj heq
  refine List.inj_on_of_nodup_map hpairs hcol hcol' ?_
  exact Prod.ext (seqScanCounter_eq_of_toTdcKind_eq hkind) hslot

/-- **The output finds the place of the column.** -/
theorem find_place (hlayout : buildColumnOnlyLayout schema = .ok layout)
    (hnodup : (schema.map fun col => (col.decodeKind.toTdcKind, col.chunkSlot)).Nodup)
    (hcol : col ∈ schema) :
    ∃ c ∈ layout.columns, placeKey c = columnKey col ∧
      layout.columns.find? (fun c =>
        c.srcColIdx = col.chunkSlot ∧ some c.kind = col.decodeKind.toTdcKind) = some c := by
  have hkeys := buildColumnOnlyLayout_keys hlayout
  have hmem : columnKey col ∈ layout.columns.map placeKey := by
    rw [hkeys]
    exact List.mem_map_of_mem hcol
  obtain ⟨c₀, hc₀, hkey₀⟩ := List.mem_map.1 hmem
  have hfound : (layout.columns.find? (fun c =>
      c.srcColIdx = col.chunkSlot ∧ some c.kind = col.decodeKind.toTdcKind)).isSome := by
    rw [List.find?_isSome]
    obtain ⟨hpair, -⟩ := Prod.mk.inj hkey₀
    obtain ⟨hkind, hslot⟩ := Prod.mk.inj hpair
    exact ⟨c₀, hc₀, decide_eq_true ⟨hslot, hkind⟩⟩
  obtain ⟨c, hc⟩ := Option.isSome_iff_exists.1 hfound
  have hmem' := List.mem_of_find?_eq_some hc
  have hplace := @List.find?_some _ (fun c : TdcPlacedColumn =>
    decide (c.srcColIdx = col.chunkSlot ∧ some c.kind = col.decodeKind.toTdcKind)) c _ hc
  obtain ⟨hslot, hkind⟩ := of_decide_eq_true hplace
  have hcolumn : placeKey c ∈ schema.map columnKey := by
    rw [← hkeys]
    exact List.mem_map_of_mem hmem'
  obtain ⟨col', hcol', hkey⟩ := List.mem_map.1 hcolumn
  -- the key without the scale says which column it is
  have hsame : col' = col := by
    refine List.inj_on_of_nodup_map hnodup hcol' hcol ?_
    have hpair : (col'.decodeKind.toTdcKind, col'.chunkSlot) = (some c.kind, c.srcColIdx) :=
      congrArg Prod.fst hkey
    rw [hpair, hslot, hkind]
  exact ⟨c, hmem', hsame ▸ hkey.symm, hc⟩

end Layout

/-! ## A column of a store -/

section Store

variable {schema : List ColumnSchema} {layout : TupleDataLayout} {t : TupleDataCollection}
  {chunkRows : List (DataChunk × Nat)} {col : ColumnSchema} {kind : TdcColumnKind}

/-- A column of a stored row decodes to what the chunk row has. -/
theorem decodeColumn_eq
    (hholds : Holds layout t (chunkRows.map fun x => scatterGroupColumns layout.descs x.1 x.2))
    {r : Nat} {x : DataChunk × Nat} (hx : chunkRows[r]? = some x) {c : TdcPlacedColumn}
    (hc : c ∈ layout.columns) : t.decodeColumn r c = x.1.get c.kind c.srcColIdx x.2 := by
  have hrow := (hholds.row r (scatterGroupColumns layout.descs x.1 x.2)
    (by rw [List.getElem?_map, hx]; rfl)).decodeRow
  rw [decodeRow, scatterGroupColumns, DataChunk.groupColumns, TupleDataLayout.descs,
    List.map_map] at hrow
  exact List.map_inj_left.1 hrow c hc

/-- What is put out for a row of the store. -/
theorem emitColumn_eq (atttypid : Nat) (hlayout : buildColumnOnlyLayout schema = .ok layout)
    (hnodup : (schema.map fun col => (col.decodeKind.toTdcKind, col.chunkSlot)).Nodup)
    (hcol : col ∈ schema) (hkind : col.decodeKind.toTdcKind = some kind)
    (hholds : Holds layout t (chunkRows.map fun x => scatterGroupColumns layout.descs x.1 x.2))
    {r : Nat} {x : DataChunk × Nat} (hx : chunkRows[r]? = some x) :
    emitColumn atttypid col layout t r =
      (encodeValue col (columnNumericScale col) (x.1.get kind col.chunkSlot x.2)).map
        (wrapBpchar atttypid col) := by
  obtain ⟨c, hc, hkey, hfind⟩ := find_place hlayout hnodup hcol
  obtain ⟨hpair, hscale⟩ := Prod.mk.inj hkey
  obtain ⟨hkind', hslot⟩ := Prod.mk.inj hpair
  rw [hkind, Option.some.injEq] at hkind'
  rw [emitColumn, encodeColumnFromRow, hfind]
  dsimp only
  rw [decodeColumn_eq hholds hx hc, hkind', hslot, hscale]

end Store

/-! ## From the heap to the output -/

section Carried

variable {rel : List Attribute} {expectedVarno : Nat} {refs : List ColumnRef} {ref : ColumnRef}
  {attr : Attribute} {schema : List ColumnSchema} {col : ColumnSchema} {kind : TdcColumnKind}
  {layout : TupleDataLayout} {t : TupleDataCollection} {stored : List StoredValue}
  {chunkRows : List (DataChunk × Nat)}

/-- The rows of a store with the chunk rows they were scattered from and the values the
deformer filled a column of them with. -/
structure Carried (attr : Attribute) (col : ColumnSchema) (kind : TdcColumnKind)
    (layout : TupleDataLayout) (stored : List StoredValue) (chunkRows : List (DataChunk × Nat))
    (t : TupleDataCollection) : Prop where
  length_eq : stored.length = chunkRows.length
  ofColumn : ∀ v ∈ stored, OfColumn attr v
  deformed : ∀ (r : Nat) (v : StoredValue) (x : DataChunk × Nat) (d : Datum),
    stored[r]? = some v → chunkRows[r]? = some x → deformColumn attr v = .ok d →
      x.1.get kind col.chunkSlot x.2 = d
  held : Holds layout t (chunkRows.map fun x => scatterGroupColumns layout.descs x.1 x.2)

/-- The outcome of a row: an error of the deformer, or what is put out. -/
def outcome (attr : Attribute) (col : ColumnSchema) (layout : TupleDataLayout)
    (t : TupleDataCollection) (v : StoredValue) (r : Nat) : Except String SqlValue :=
  (deformColumn attr v).bind fun _ => emitColumn attr.atttypid col layout t r

/-- **Values come out as they are stored**, and values that differ neither come out nor are
grouped as one. -/
structure RoundTrips (attr : Attribute) (col : ColumnSchema) (kind : TdcColumnKind)
    (layout : TupleDataLayout) (stored : List StoredValue) (chunkRows : List (DataChunk × Nat))
    (t : TupleDataCollection) : Prop where
  comesOut : ∀ (r : Nat) (v : StoredValue), stored[r]? = some v →
    outcome attr col layout t v r = .ok v.value
  apart : ∀ (r s : Nat) (v w : StoredValue) (x y : DataChunk × Nat),
    stored[r]? = some v → stored[s]? = some w → chunkRows[r]? = some x → chunkRows[s]? = some y →
    v.value ≠ w.value →
      outcome attr col layout t v r ≠ outcome attr col layout t w s ∧
      (x.1.get kind col.chunkSlot x.2).matches (y.1.get kind col.chunkSlot y.2) = false

/-- What is scanned for a column, as `columnOf` has it. -/
theorem buildSeqScanColumnsFrom_getElem? {counters : SlotCounters}
    (h : buildSeqScanColumnsFrom rel expectedVarno counters refs = some schema) {i : Nat}
    (href : refs[i]? = some ref) (hcol : schema[i]? = some col)
    (hattr : seqScanAttribute rel expectedVarno ref = some attr) :
    ∃ kind, seqScanDecodeKind attr = some kind ∧ kind = col.decodeKind ∧
      col = columnOf attr col.chunkSlot ref.attno kind := by
  induction refs generalizing counters schema i with
  | nil => exact absurd href nofun
  | cons first refs ih =>
    rw [buildSeqScanColumnsFrom] at h
    obtain ⟨attr', hattr', h⟩ := Option.bind_eq_some_iff.1 h
    obtain ⟨kind', hkind', h⟩ := Option.bind_eq_some_iff.1 h
    obtain ⟨⟨slot, counters'⟩, -, h⟩ := Option.bind_eq_some_iff.1 h
    obtain ⟨rest, hrest, hout⟩ := Option.bind_eq_some_iff.1 h
    obtain rfl := Option.some.inj hout
    cases i with
    | zero =>
      obtain rfl := Option.some.inj href
      obtain rfl := Option.some.inj hcol
      obtain rfl := Option.some.inj (hattr'.symm.trans hattr)
      exact ⟨kind', hkind', rfl, rfl⟩
    | succ i => exact ih hrest href hcol

/-- A datum that is encoded to the value it came from tells the value. -/
theorem RoundTrips.of_comesOut
    (hemit : ∀ (r : Nat) (x : DataChunk × Nat), chunkRows[r]? = some x →
      emitColumn attr.atttypid col layout t r =
        (encodeValue col (columnNumericScale col) (x.1.get kind col.chunkSlot x.2)).map
          (wrapBpchar attr.atttypid col))
    (hout : ∀ (r : Nat) (v : StoredValue), stored[r]? = some v →
      outcome attr col layout t v r = .ok v.value) :
    RoundTrips attr col kind layout stored chunkRows t := by
  have hvalue : ∀ (r : Nat) (v : StoredValue) (x : DataChunk × Nat), stored[r]? = some v →
      chunkRows[r]? = some x →
      (encodeValue col (columnNumericScale col) (x.1.get kind col.chunkSlot x.2)).map
        (wrapBpchar attr.atttypid col) = .ok v.value := by
    intro r v x hv hx
    have hrow := hout r v hv
    rw [outcome] at hrow
    cases hdeform : deformColumn attr v with
    | error e =>
      rw [hdeform] at hrow
      exact absurd hrow nofun
    | ok d =>
      rw [hdeform] at hrow
      exact (hemit r x hx).symm.trans hrow
  refine ⟨hout, fun r s v w x y hv hw hx hy hne => ⟨fun heq => ?_, ?_⟩⟩
  · rw [hout r v hv, hout s w hw] at heq
    exact hne (Except.ok.inj heq)
  · rw [← Bool.not_eq_true, Datum.matches_iff]
    intro heq
    have hsame := hvalue r v x hv hx
    rw [heq, hvalue s w y hw hy] at hsame
    exact hne (Except.ok.inj hsame).symm

/-- **A column of a scan round-trips exactly when its values are of those that come out.** -/
theorem roundTrips_iff (hschema : buildSeqScanColumns rel expectedVarno refs = some schema)
    (hlayout : buildColumnOnlyLayout schema = .ok layout) {i : Nat}
    (href : refs[i]? = some ref) (hattr : seqScanAttribute rel expectedVarno ref = some attr)
    (hcol : schema[i]? = some col) (hkind : col.decodeKind.toTdcKind = some kind)
    (hcarried : Carried attr col kind layout stored chunkRows t) :
    RoundTrips attr col kind layout stored chunkRows t ↔
      ∀ v ∈ stored, ComesOutExactly attr v := by
  have hnodup := buildSeqScanColumns_nodup hschema
  obtain ⟨decodeKind, hdecode, -, hcolumn⟩ :=
    buildSeqScanColumnsFrom_getElem? hschema href hcol hattr
  have hemit := fun (r : Nat) (x : DataChunk × Nat) (hx : chunkRows[r]? = some x) =>
    emitColumn_eq attr.atttypid hlayout hnodup (List.mem_of_getElem? hcol) hkind hcarried.held hx
  -- a row comes out exactly when its value does
  have hrow : ∀ (r : Nat) (v : StoredValue), stored[r]? = some v →
      (outcome attr col layout t v r = .ok v.value ↔ ComesOutExactly attr v) := by
    intro r v hv
    have hlt := (List.getElem?_eq_some_iff.1 hv).1
    obtain ⟨x, hx⟩ : ∃ x, chunkRows[r]? = some x :=
      ⟨_, List.getElem?_eq_getElem (hcarried.length_eq ▸ hlt)⟩
    have hone := @comesOut_iff attr col.chunkSlot ref.attno decodeKind v
      (hcarried.ofColumn v (List.mem_of_getElem? hv)) hdecode
    rw [← hone, ← hcolumn, ComesOut, outcome]
    cases hdeform : deformColumn attr v with
    | error e =>
      refine iff_of_false (fun h => ?_) ?_
      · cases h
      · rintro ⟨d, hd, -⟩
        cases hd
    | ok d =>
      have hd := hcarried.deformed r v x d hv hx hdeform
      have hemitted := hemit r x hx
      rw [hd] at hemitted
      rw [Except.bind, hemitted]
      constructor
      · exact fun h => ⟨d, rfl, h⟩
      · rintro ⟨d', hd', h⟩
        obtain rfl := Except.ok.inj hd'
        exact h
  constructor
  · intro h v hv
    obtain ⟨r, hr⟩ := List.mem_iff_getElem?.1 hv
    exact (hrow r v hr).1 (h.comesOut r v hr)
  · intro h
    apply RoundTrips.of_comesOut hemit
    intro r v hv
    exact (hrow r v hv).2 (h v (List.mem_of_getElem? hv))

/-- A store of two rows with a four-byte column. -/
theorem exists_holds_int32 (typeOid : Nat) (v w : Int32) :
    ∃ layout t, (∀ col : ColumnSchema, col.typeOid = typeOid → col.chunkSlot = 0 →
        col.decodeKind.toTdcKind = some .int32 → columnNumericScale col = 0 →
        buildColumnOnlyLayout [col] = .ok layout) ∧
      Holds layout t ([(int32Chunk v 0, 0), (int32Chunk w 0, 0)].map fun x =>
        scatterGroupColumns layout.descs x.1 x.2) := by
  have hroom : 0 ≤ 0 ∧ 0 + 4 ≤ 8 := by decide
  let layout : TupleDataLayout := ⟨[⟨⟨.int32, 0⟩, 0, typeOid, 0⟩], 8, hroom⟩
  obtain ⟨hempty, -⟩ := @allocate_holds _ layout 2 0 (by norm_num) rfl
  have hone := @Holds.append_scatter _ _ _ _ layout _ hempty rfl (int32Chunk v 0) 0 rfl
  have htwo := @Holds.append_scatter _ _ _ _ layout _ hone rfl (int32Chunk w 0) 0 rfl
  refine ⟨layout, _, fun col htype hslot hkind hscale => ?_, htwo⟩
  rw [buildColumnOnlyLayout, List.foldlM_cons, appendSchemaColumn, hkind, hscale, htype, hslot]
  rfl

/-- Two rows of an integer column come out as they are stored. -/
theorem roundTrips_int4 :
    ∃ schema col layout t,
      buildSeqScanColumns [⟨int4Oid, -1, 4, true⟩] 1 [⟨1, 1⟩] = some schema ∧
      schema[0]? = some col ∧ buildColumnOnlyLayout schema = .ok layout ∧
      RoundTrips ⟨int4Oid, -1, 4, true⟩ col .int32 layout [.int4 7, .int4 8]
        [(int32Chunk 7 0, 0), (int32Chunk 8 0, 0)] t := by
  obtain ⟨layout, t, hlayout, hholds⟩ := exists_holds_int32 int4Oid 7 8
  have hbuilt : buildColumnOnlyLayout [columnOf ⟨int4Oid, -1, 4, true⟩ 0 1 .int32Int4] =
      .ok layout := hlayout _ rfl rfl rfl rfl
  have hschema : buildSeqScanColumns [⟨int4Oid, -1, 4, true⟩] 1 [⟨1, 1⟩] =
      some [columnOf ⟨int4Oid, -1, 4, true⟩ 0 1 .int32Int4] := rfl
  have href : [(⟨1, 1⟩ : ColumnRef)][0]? = some ⟨1, 1⟩ := rfl
  refine ⟨_, _, layout, t, hschema, rfl, hbuilt, ?_⟩
  refine (roundTrips_iff hschema hbuilt href rfl rfl rfl ⟨rfl, ?_, ?_, hholds⟩).2 ?_
  · intro v hv
    rcases List.mem_pair.1 hv with rfl | rfl
    · exact .int4 7 rfl
    · exact .int4 8 rfl
  · intro r v x d hv hx hd
    rcases r with _ | _ | r
    · obtain rfl := Option.some.inj hv
      obtain rfl := Option.some.inj hx
      exact Except.ok.inj hd
    · obtain rfl := Option.some.inj hv
      obtain rfl := Option.some.inj hx
      exact Except.ok.inj hd
    · exact absurd hv nofun
  · intro v hv
    rcases List.mem_pair.1 hv with rfl | rfl
    · exact trivial
    · exact trivial

/-- Two letters with an accent come out of a `char(1)` as one, and are grouped as one: they
have their first byte in common. -/
theorem accents_come_out_alike :
    ∃ schema col layout t,
      buildSeqScanColumns [⟨bpcharOid, 5, -1, false⟩] 1 [⟨1, 1⟩] = some schema ∧
      schema[0]? = some col ∧ buildColumnOnlyLayout schema = .ok layout ∧
      Carried ⟨bpcharOid, 5, -1, false⟩ col .int32 layout
        [.bpchar (.inline [0xC3, 0xA9]), .bpchar (.inline [0xC3, 0xA8])]
        [(int32Chunk 0xC3 0, 0), (int32Chunk 0xC3 0, 0)] t ∧
      ¬ RoundTrips ⟨bpcharOid, 5, -1, false⟩ col .int32 layout
        [.bpchar (.inline [0xC3, 0xA9]), .bpchar (.inline [0xC3, 0xA8])]
        [(int32Chunk 0xC3 0, 0), (int32Chunk 0xC3 0, 0)] t := by
  obtain ⟨layout, t, hlayout, hholds⟩ := exists_holds_int32 bpcharOid 0xC3 0xC3
  have hbuilt : buildColumnOnlyLayout [columnOf ⟨bpcharOid, 5, -1, false⟩ 0 1 .int32Char] =
      .ok layout := hlayout _ rfl rfl rfl rfl
  have hacute : IsString [0xC3, 0xA9] := ⟨by simp, by decide⟩
  have hgrave : IsString [0xC3, 0xA8] := ⟨by simp, by decide⟩
  refine ⟨[columnOf ⟨bpcharOid, 5, -1, false⟩ 0 1 .int32Char], _, layout, t, rfl, rfl, hbuilt,
    ⟨rfl, ?_, ?_, hholds⟩, fun h => ?_⟩
  · intro v hv
    rcases List.mem_pair.1 hv with rfl | rfl
    · exact .bpchar _ rfl trivial hacute fun _ => rfl
    · exact .bpchar _ rfl trivial hgrave fun _ => rfl
  · intro r v x d hv hx hd
    rcases r with _ | _ | r
    · obtain rfl := Option.some.inj hv
      obtain rfl := Option.some.inj hx
      exact Except.ok.inj hd
    · obtain rfl := Option.some.inj hv
      obtain rfl := Option.some.inj hx
      exact Except.ok.inj hd
    · exact absurd hv nofun
  · -- the chunk has the same byte for both
    have hapart := (h.apart 0 1 _ _ _ _ rfl rfl rfl rfl (by decide)).2
    rw [← Bool.not_eq_true, Datum.matches_iff] at hapart
    exact hapart rfl

end Carried

end HeapColumns
end PgYaap
