import Mathlib
import PgYaap.HashJoinCorrectness
import PgYaap.TupleDataCollectionRows

/-! # Null flags through pipeline breakers

A pipeline breaker scatters its input rows to a row store and later gathers stored
rows into chunks of its source; the output sink stores the rows of the query and
encodes them for the receiver. A chunk has a null flag for every slot and row, the
row store has none. This module follows one value through a chain of operators,
from the chunk it comes in with to the attribute of the tuple it leaves with.

Which rows a source emits, and in what order, is left open: a sort, a top-N and a
group-by choose them by keys. What the row store does with its rows is not: a
store is whatever appending chunk rows and copying stored rows can make. -/
namespace PgYaap
namespace NullFlags
open HashJoinProbe TupleDataCollection

/-! ## Writing chunk rows -/

/-- A store into a column array. -/
def setColumn {α : Type} (c : ChunkColumns α) (slot row : Nat) (v : α) : ChunkColumns α :=
  { c with columns := fun s r => if s = slot ∧ r = row then v else c.columns s r }

/-- A store into the column array of the value's kind. -/
def setValue (chunk : DataChunk) (slot row : Nat) : Datum → DataChunk
  | .int32 v => { chunk with int32 := setColumn chunk.int32 slot row v }
  | .int64 v => { chunk with int64 := setColumn chunk.int64 slot row v }
  | .double v => { chunk with double := setColumn chunk.double slot row v }
  | .stringRef v => { chunk with string := setColumn chunk.string slot row v }

/-- A store into the null flags. -/
def setNull (chunk : DataChunk) (slot row : Nat) (flag : UInt8) : DataChunk :=
  { chunk with nulls := fun s r => if s = slot ∧ r = row then flag else chunk.nulls s r }

/-- What a source writes into one slot of a row: a value, and a flag where the code
writes one. -/
structure CellWrite where
  slot : Nat
  value : Option Datum
  flag : Option UInt8

def writeCell (row : Nat) (chunk : DataChunk) (w : CellWrite) : DataChunk :=
  let chunk := match w.value with
    | none => chunk
    | some v => setValue chunk w.slot row v
  match w.flag with
  | none => chunk
  | some flag => setNull chunk w.slot row flag

/-- `DataChunk::reset`: no rows, no dictionaries, no null flags. The column arrays
keep what they had. -/
def reset (chunk : DataChunk) : DataChunk where
  count := 0
  int32 := ⟨chunk.int32.columns, chunk.int32.dictIndices, fun _ => ⟨false, 0⟩⟩
  int64 := ⟨chunk.int64.columns, chunk.int64.dictIndices, fun _ => ⟨false, 0⟩⟩
  double := ⟨chunk.double.columns, chunk.double.dictIndices, fun _ => ⟨false, 0⟩⟩
  string := ⟨chunk.string.columns, chunk.string.dictIndices, fun _ => ⟨false, 0⟩⟩
  nulls := fun _ _ => 0

/-! ## Row stores -/

/-- **The stores of a breaker**, with the chunk rows their rows come from: a new
store, a store with one more chunk row, and a store with a copy of a row of another
one. Growing, replacing the worst row of a top-N and combining are copies. -/
inductive Stores (layout : TupleDataLayout) : TupleDataCollection → List ChunkRow → Prop
  | new {rowCapacity heapCapacity : Nat} {t : TupleDataCollection}
      (hheap : heapCapacity < 2 ^ 32)
      (halloc : allocate rowCapacity layout.rowWidth heapCapacity = .ok t) : Stores layout t []
  | scatter {t dst t' : TupleDataCollection} {rows : List ChunkRow} {rowIdx : Nat} {row : ChunkRow}
      (h : Stores layout t rows) (happ : t.appendRow = some (dst, rowIdx))
      (hstore : scatterGroupOnly layout dst rowIdx row.chunk row.rowIdx = .ok t') :
      Stores layout t' (rows ++ [row])
  | copy {src t dst t' : TupleDataCollection} {srcRows rows : List ChunkRow} {rowIdx srcRow : Nat}
      {row : ChunkRow} (hsrc : Stores layout src srcRows) (hrow : srcRows[srcRow]? = some row)
      (h : Stores layout t rows) (happ : t.appendRow = some (dst, rowIdx))
      (hstore : copyBuildRow layout src srcRow dst rowIdx = .ok t') : Stores layout t' (rows ++ [row])

/-! ## Sources -/

/-- How a source writes a stored row into its output chunk. -/
inductive BreakerSource
  | gather
  | gatherDenseAggregateOutput
  | copyResolvedJoinRow (outputColumns : List HashJoinOutputColumnDesc)

/-- A pipeline breaker: the layout of its row store, and its source. `PhysicalOrder`,
`PhysicalTopN` and `PhysicalPerfectHashAggregate` gather, `PhysicalHashAggregate`
gathers into dense slots; for the build sides of `PhysicalHashJoin` and
`PhysicalCrossProduct` the probe side copies the stored row beside a probe row. -/
structure Breaker where
  layout : TupleDataLayout
  source : BreakerSource

section Source
variable (layout : TupleDataLayout) (t : TupleDataCollection) (rowIdx : Nat)

/-- `Gather`, its loop over the columns: every column goes back to the slot it came from. -/
def gather : List CellWrite :=
  layout.columns.map fun col => ⟨col.srcColIdx, some (t.decodeColumn rowIdx col), none⟩

/-- `GatherDenseAggregateOutput`, its loop over the columns: column `i` goes to slot `i`. -/
def gatherDenseAggregateOutput : List CellWrite :=
  layout.columns.zipIdx.map fun x => ⟨x.2, some (t.decodeColumn rowIdx x.1), none⟩

/-- `CopyResolvedJoinRow` beside a probe row. -/
def resolvedJoinRow (outputColumns : List HashJoinOutputColumnDesc) (left : ChunkRow) :
    List CellWrite :=
  (copyResolvedJoinRow ⟨.inner, [], [], layout.descs, outputColumns, none, false⟩ left.chunk
    left.rowIdx (some (t.decodeRow layout rowIdx))).map fun cell =>
      ⟨cell.outputChunkSlot, cell.value, some cell.isNull⟩

end Source

/-- What a source writes for one stored row; only a join looks at the probe row. -/
def Breaker.writes (b : Breaker) (t : TupleDataCollection) (rowIdx : Nat) (left : ChunkRow) :
    List CellWrite :=
  match b.source with
  | .gather => gather b.layout t rowIdx
  | .gatherDenseAggregateOutput => gatherDenseAggregateOutput b.layout t rowIdx
  | .copyResolvedJoinRow outputColumns => resolvedJoinRow b.layout t rowIdx outputColumns left

/-- One turn of `GetData` or `Execute`: a stored row becomes the next row of the chunk. -/
def Breaker.emitRow (b : Breaker) (t : TupleDataCollection) (out : DataChunk)
    (pick : Nat × ChunkRow) : DataChunk :=
  { (b.writes t pick.1 pick.2).foldl (writeCell out.count) out with count := out.count + 1 }

/-- The chunk of a source: the rows that were picked for it, in their order. -/
def Breaker.getData (b : Breaker) (t : TupleDataCollection) (out : DataChunk)
    (picks : List (Nat × ChunkRow)) : DataChunk :=
  picks.foldl (b.emitRow t) (reset out)

/-! ## The output sink -/

/-- A column of the output schema. -/
structure OutputColumn where
  decodeKind : ColumnDecodeKind
  chunkSlot : Nat

/-- An attribute of an output tuple. -/
structure TupleAttribute where
  value : Option Datum
  isNull : Bool
deriving DecidableEq

/-- `ResolveRowValueLocation` and `EncodeColumnFromRow`: the stored value that the
attribute is encoded from. The layout of the output has no aggregates, and a slot
that it lacks ends the query with an error. -/
def encodeColumnFromRow (layout : TupleDataLayout) (t : TupleDataCollection) (rowIdx : Nat)
    (col : OutputColumn) : Option Datum :=
  col.decodeKind.toTdcKind.bind fun kind =>
    (layout.columns.find? fun c => c.srcColIdx = col.chunkSlot && c.kind = kind).map
      (t.decodeColumn rowIdx)

/-- The loop body of `EmitGlobalTdcToDest`. -/
def emitAttribute (layout : TupleDataLayout) (t : TupleDataCollection) (rowIdx : Nat)
    (col : OutputColumn) : TupleAttribute :=
  ⟨encodeColumnFromRow layout t rowIdx col, false⟩

/-! ## Following a value -/

/-- A value in a chunk: its row, its slot and its kind. -/
structure Cell where
  row : ChunkRow
  slot : Nat
  kind : TdcColumnKind

def Cell.value (c : Cell) : Datum := c.row.chunk.get c.kind c.slot c.row.rowIdx

def Cell.isNull (c : Cell) : Bool := c.row.chunk.nulls c.slot c.row.rowIdx ≠ 0

/-- Which slot the values of a kind and slot of the stored rows go to. A join writes
its output columns in order, so a later column of the same slot would win. -/
inductive Breaker.Routes (b : Breaker) (kind : TdcColumnKind) (slot : Nat) : Nat → Prop
  | gather (hsource : b.source = .gather)
      (hcol : ∃ col ∈ b.layout.columns, col.kind = kind ∧ col.srcColIdx = slot) :
      Routes b kind slot slot
  | dense {i : Nat} {col : TdcPlacedColumn} (hsource : b.source = .gatherDenseAggregateOutput)
      (hcol : b.layout.columns[i]? = some col) (hkind : col.kind = kind)
      (hslot : col.srcColIdx = slot) : Routes b kind slot i
  | joined {before after : List HashJoinOutputColumnDesc} {col : HashJoinOutputColumnDesc}
      (hsource : b.source = .copyResolvedJoinRow (before ++ col :: after))
      (hside : col.side = .right) (hkind : col.decodeKind.toTdcKind = some kind)
      (hslot : col.inputChunkSlot = slot)
      (hlast : ∀ c ∈ after, c.outputChunkSlot ≠ col.outputChunkSlot)
      (hcol : ∃ col ∈ b.layout.columns, col.kind = kind ∧ col.srcColIdx = slot) :
      Routes b kind slot col.outputChunkSlot

/-- **A value passes a breaker**: its row is stored, and picked for a chunk of the source. -/
inductive Breaker.Passes (b : Breaker) : Cell → Cell → Prop
  | intro {t : TupleDataCollection} {rows : List ChunkRow} {picks : List (Nat × ChunkRow)}
      {out : DataChunk} {rowIdx i slot slot' : Nat} {left row : ChunkRow} {kind : TdcColumnKind}
      (hstores : Stores b.layout t rows) (hrow : rows[rowIdx]? = some row)
      (hpick : picks[i]? = some (rowIdx, left)) (hslot : b.Routes kind slot slot') :
      Passes b ⟨row, slot, kind⟩ ⟨⟨b.getData t out picks, i⟩, slot', kind⟩

/-- An operator of a chain: a breaker, or one that streams, which hands a value on
with its flag. -/
inductive ChainOperator
  | breaker (b : Breaker)
  | streaming

/-- A value on its way through a chain of operators and the output sink. -/
inductive Reaches (layout : TupleDataLayout) (col : OutputColumn) :
    List ChainOperator → Cell → TupleAttribute → Prop
  | emit {t : TupleDataCollection} {rows : List ChunkRow} {rowIdx : Nat} {row : ChunkRow}
      {kind : TdcColumnKind} (hstores : Stores layout t rows) (hrow : rows[rowIdx]? = some row)
      (hkind : col.decodeKind.toTdcKind = some kind)
      (hcol : ∃ c ∈ layout.columns, c.kind = kind ∧ c.srcColIdx = col.chunkSlot) :
      Reaches layout col [] ⟨row, col.chunkSlot, kind⟩ (emitAttribute layout t rowIdx col)
  | breaker {b : Breaker} {ops : List ChainOperator} {c c' : Cell} {attr : TupleAttribute}
      (hpass : b.Passes c c') (h : Reaches layout col ops c' attr) :
      Reaches layout col (.breaker b :: ops) c attr
  | streaming {ops : List ChainOperator} {c c' : Cell} {attr : TupleAttribute}
      (hvalue : c'.value = c.value) (hnull : c'.isNull = c.isNull)
      (h : Reaches layout col ops c' attr) : Reaches layout col (.streaming :: ops) c attr

/-- What the claim asks of a value and the attribute it becomes. -/
def KeepsNullFlag (c : Cell) (attr : TupleAttribute) : Prop := attr.isNull = c.isNull

/-! ## Stored values -/

section Stored
variable {layout : TupleDataLayout} {t : TupleDataCollection} {rows : List ChunkRow}
  {row : ChunkRow} {rowIdx : Nat}

/-- The stored values of a chunk row. -/
def storedValues (layout : TupleDataLayout) (row : ChunkRow) : List Datum :=
  scatterGroupColumns layout.descs row.chunk row.rowIdx

theorem Stores.holds (h : Stores layout t rows) : Holds layout t (rows.map (storedValues layout)) := by
  induction h with
  | new hheap halloc => exact (allocate_holds hheap halloc).1
  | scatter _ happ hstore ih =>
    rw [List.map_append]
    exact ih.append_scatter happ hstore
  | copy hsrc hrow _ happ hstore ihsrc ih =>
    have hvalue := (ihsrc.row _ _ (by rw [List.getElem?_map, hrow]; rfl)).decodeRow
    rw [List.map_append, List.map_singleton, ← hvalue]
    exact ih.append_copy happ hstore

/-- **A store gives back the values its rows were scattered with.** -/
theorem Stores.decodeRow (h : Stores layout t rows) (hrow : rows[rowIdx]? = some row) :
    t.decodeRow layout rowIdx = storedValues layout row :=
  (h.holds.row _ _ (by rw [List.getElem?_map, hrow]; rfl)).decodeRow

theorem Stores.decodeColumn (h : Stores layout t rows) (hrow : rows[rowIdx]? = some row)
    {col : TdcPlacedColumn} (hcol : col ∈ layout.columns) :
    t.decodeColumn rowIdx col = row.chunk.get col.kind col.srcColIdx row.rowIdx := by
  have hvalues := h.decodeRow hrow
  unfold TupleDataCollection.decodeRow storedValues scatterGroupColumns DataChunk.groupColumns
    TupleDataLayout.descs at hvalues
  rw [List.map_map] at hvalues
  exact List.map_inj_left.mp hvalues col hcol

end Stored

/-! ## Written chunks -/

/-- A chunk without dictionaries. -/
structure Flat (chunk : DataChunk) : Prop where
  int32 : ∀ s, (chunk.int32.dict s).active = false
  int64 : ∀ s, (chunk.int64.dict s).active = false
  double : ∀ s, (chunk.double.dict s).active = false
  string : ∀ s, (chunk.string.dict s).active = false

section Writes
variable {chunk : DataChunk} {slot row s r : Nat} {kind : TdcColumnKind} {v : Datum}
  {w : CellWrite} {writes : List CellWrite}

theorem get_setColumn {α : Type} {c : ChunkColumns α} (h : (c.dict s).active = false) (v : α) :
    (setColumn c slot row v).get s r = if s = slot ∧ r = row then v else c.get s r := by
  simp [ChunkColumns.get, setColumn, h]

theorem Flat.get_setValue (h : Flat chunk) :
    (setValue chunk slot row v).get kind s r =
      if v.kind = kind ∧ s = slot ∧ r = row then v else chunk.get kind s r := by
  have h32 := @get_setColumn slot row s r _ _ (h.int32 s)
  have h64 := @get_setColumn slot row s r _ _ (h.int64 s)
  have hd := @get_setColumn slot row s r _ _ (h.double s)
  have hs := @get_setColumn slot row s r _ _ (h.string s)
  cases v <;> cases kind <;>
    simp only [setValue, DataChunk.get, DataChunk.getInt32, DataChunk.getInt64,
      DataChunk.getDouble, DataChunk.getString, Datum.kind, h32, h64, hd, hs, reduceCtorEq,
      false_and, if_false, true_and] <;>
    split <;> rfl

theorem Flat.setValue (h : Flat chunk) : Flat (setValue chunk slot row v) := by
  cases v <;> exact ⟨h.int32, h.int64, h.double, h.string⟩

theorem nulls_setValue : (setValue chunk slot row v).nulls = chunk.nulls := by
  cases v <;> rfl

theorem Flat.writeCell (h : Flat chunk) : Flat (writeCell row chunk w) := by
  unfold NullFlags.writeCell
  cases w.value with
  | none => cases w.flag <;> exact ⟨h.int32, h.int64, h.double, h.string⟩
  | some v =>
    have hset : Flat (NullFlags.setValue chunk w.slot row v) := h.setValue
    cases w.flag <;> exact ⟨hset.int32, hset.int64, hset.double, hset.string⟩

/-- What a write does to the values. -/
theorem Flat.get_writeCell (h : Flat chunk) :
    (NullFlags.writeCell row chunk w).get kind s r =
      match w.value with
      | none => chunk.get kind s r
      | some v => if v.kind = kind ∧ s = w.slot ∧ r = row then v else chunk.get kind s r := by
  unfold NullFlags.writeCell
  cases w.value with
  | none => cases w.flag <;> rfl
  | some v => cases w.flag <;> exact h.get_setValue

/-- What a write does to the null flags. -/
theorem nulls_writeCell :
    (writeCell row chunk w).nulls s r =
      match w.flag with
      | none => chunk.nulls s r
      | some flag => if s = w.slot ∧ r = row then flag else chunk.nulls s r := by
  unfold writeCell
  cases w.value with
  | none => cases w.flag <;> rfl
  | some v =>
    cases w.flag with
    | none => exact congrFun (congrFun nulls_setValue s) r
    | some flag =>
      show (if s = w.slot ∧ r = row then flag else (setValue chunk w.slot row v).nulls s r) = _
      rw [nulls_setValue]

theorem Flat.foldl (h : Flat chunk) : Flat (writes.foldl (NullFlags.writeCell row) chunk) := by
  induction writes generalizing chunk with
  | nil => exact h
  | cons w ws ih => exact ih h.writeCell

/-- A slot, or a row, that no write names keeps its values and its flags. -/
theorem Flat.foldl_frame (h : Flat chunk) (hother : r ≠ row ∨ ∀ w ∈ writes, w.slot ≠ s) :
    (writes.foldl (NullFlags.writeCell row) chunk).get kind s r = chunk.get kind s r ∧
      (writes.foldl (NullFlags.writeCell row) chunk).nulls s r = chunk.nulls s r := by
  induction writes generalizing chunk with
  | nil => exact ⟨rfl, rfl⟩
  | cons w ws ih =>
    have hrest := @ih (NullFlags.writeCell row chunk w) h.writeCell
      (hother.imp_right fun hw u hu => hw u (List.mem_cons_of_mem _ hu))
    have hmiss : ¬ (s = w.slot ∧ r = row) := by
      rintro ⟨rfl, rfl⟩
      rcases hother with hrow | hslot
      · exact hrow rfl
      · exact hslot w List.mem_cons_self rfl
    rw [List.foldl_cons, hrest.1, hrest.2, h.get_writeCell, nulls_writeCell]
    refine ⟨?_, ?_⟩
    · cases w.value with
      | none => rfl
      | some v => exact if_neg fun hc => hmiss hc.2
    · cases w.flag with
      | none => rfl
      | some flag => exact if_neg hmiss

/-- **The last write of a slot** decides its value and its flag. -/
theorem Flat.foldl_last (h : Flat chunk) {before after : List CellWrite} {flag : UInt8}
    (hvalue : w.value = some v) (hflag : w.flag = some flag)
    (hlast : ∀ u ∈ after, u.slot ≠ w.slot) :
    ((before ++ w :: after).foldl (NullFlags.writeCell row) chunk).get v.kind w.slot row = v ∧
      ((before ++ w :: after).foldl (NullFlags.writeCell row) chunk).nulls w.slot row = flag := by
  rw [List.foldl_append, List.foldl_cons]
  have hflat : Flat (before.foldl (NullFlags.writeCell row) chunk) := h.foldl
  have hnext : Flat (NullFlags.writeCell row (before.foldl (NullFlags.writeCell row) chunk) w) :=
    hflat.writeCell
  obtain ⟨hget, hnull⟩ := @Flat.foldl_frame _ row w.slot row v.kind after hnext (Or.inr hlast)
  rw [hget, hnull, hflat.get_writeCell, nulls_writeCell, hvalue, hflag]
  simp

/-- Writes without flags that agree on a slot. -/
theorem Flat.foldl_agree (h : Flat chunk) (hflag : ∀ w ∈ writes, w.flag = none)
    (hall : ∀ w ∈ writes, ∀ u, w.slot = s → w.value = some u → u.kind = v.kind → u = v)
    (hmem : chunk.get v.kind s row = v ∨ ∃ w ∈ writes, w.slot = s ∧ w.value = some v) :
    (writes.foldl (NullFlags.writeCell row) chunk).get v.kind s row = v ∧
      (writes.foldl (NullFlags.writeCell row) chunk).nulls s row = chunk.nulls s row := by
  induction writes generalizing chunk with
  | nil =>
    rcases hmem with hv | ⟨w, hw, _⟩
    · exact ⟨hv, rfl⟩
    · cases hw
  | cons w ws ih =>
    rw [List.foldl_cons]
    have hnull : (NullFlags.writeCell row chunk w).nulls s row = chunk.nulls s row := by
      rw [nulls_writeCell, hflag w List.mem_cons_self]
    rw [← hnull]
    apply ih h.writeCell (fun u hu => hflag u (List.mem_cons_of_mem _ hu))
      (fun u hu => hall u (List.mem_cons_of_mem _ hu))
    rw [h.get_writeCell]
    by_cases hw : w.slot = s ∧ ∃ u, w.value = some u ∧ u.kind = v.kind
    · obtain ⟨hslot, u, hu, hkind⟩ := hw
      obtain rfl := hall w List.mem_cons_self u hslot hu hkind
      left
      rw [hu]
      exact if_pos ⟨rfl, hslot.symm, rfl⟩
    · rcases hmem with hv | ⟨u, hu, hslot, hvalue⟩
      · left
        cases hval : w.value with
        | none => exact hv
        | some u =>
          dsimp only
          rw [if_neg fun hc => hw ⟨hc.2.1.symm, u, hval, hc.1⟩]
          exact hv
      · rcases List.mem_cons.mp hu with rfl | hu
        · exact absurd ⟨hslot, v, hvalue, rfl⟩ hw
        · exact Or.inr ⟨u, hu, hslot, hvalue⟩

end Writes

/-! ## Sources, the output sink, and the chain -/

section Source
variable {b : Breaker} {t : TupleDataCollection} {rows : List ChunkRow} {row left : ChunkRow}
  {rowIdx slot slot' : Nat} {kind : TdcColumnKind} {chunk out : DataChunk}

/-- The payload column a join resolves an output column to has the stored value. -/
theorem findRightColumn_value {layout : TupleDataLayout}
    (hcol : ∃ col ∈ layout.columns, col.kind = kind ∧ col.srcColIdx = slot) :
    (findRightColumnBySlotAndKind layout.descs slot kind).bind ((storedValues layout row)[·]?) =
      some (row.chunk.get kind slot row.rowIdx) := by
  obtain ⟨col, hmem, hkind, hslot⟩ := hcol
  have hdesc : col.toTdcColumnDesc ∈ layout.descs := List.mem_map_of_mem hmem
  cases hfind : findRightColumnBySlotAndKind layout.descs slot kind with
  | none =>
    have hnone := List.findIdx?_eq_none_iff.mp hfind _ hdesc
    simp [hkind, hslot] at hnone
  | some i =>
    obtain ⟨hlt, hp, _⟩ := List.findIdx?_eq_some_iff_getElem.mp hfind
    simp only [Bool.and_eq_true, decide_eq_true_eq] at hp
    show (storedValues layout row)[i]? = _
    unfold storedValues scatterGroupColumns DataChunk.groupColumns
    rw [List.getElem?_map, List.getElem?_eq_getElem hlt, Option.map_some, hp.1, hp.2]

/-- **Every source** writes the stored value, and leaves the flag at zero. -/
theorem Breaker.Routes.writes (hroute : b.Routes kind slot slot') (hstores : Stores b.layout t rows)
    (hrow : rows[rowIdx]? = some row) (hflat : Flat chunk) {i : Nat}
    (hnull : chunk.nulls slot' i = 0) :
    ((b.writes t rowIdx left).foldl (writeCell i) chunk).get kind slot' i =
        row.chunk.get kind slot row.rowIdx ∧
      ((b.writes t rowIdx left).foldl (writeCell i) chunk).nulls slot' i = 0 := by
  have hkind : (row.chunk.get kind slot row.rowIdx).kind = kind := DataChunk.get_kind _ _ _ _
  cases hroute with
  | gather hsource hcol =>
    obtain ⟨col, hmem, rfl, rfl⟩ := hcol
    unfold Breaker.writes
    rw [hsource]
    have hagree := @Flat.foldl_agree chunk i col.srcColIdx
      (row.chunk.get col.kind col.srcColIdx row.rowIdx) (NullFlags.gather b.layout t rowIdx) hflat
    rw [hkind, hnull] at hagree
    apply hagree
    · intro w hw
      obtain ⟨d, _, rfl⟩ := List.mem_map.mp hw
      rfl
    · intro w hw u hslot hvalue hu
      obtain ⟨d, hd, rfl⟩ := List.mem_map.mp hw
      obtain rfl := Option.some.inj hvalue
      -- a second column of the slot was scattered from the same values
      rw [hstores.decodeColumn hrow hd, DataChunk.get_kind] at hu
      rw [hstores.decodeColumn hrow hd, hu]
      exact congrArg (row.chunk.get col.kind · row.rowIdx) hslot
    · right
      refine ⟨_, List.mem_map_of_mem hmem, rfl, ?_⟩
      rw [hstores.decodeColumn hrow hmem]
  | dense hsource hcol hcolKind hcolSlot =>
    subst hcolKind hcolSlot
    rename_i col
    have hmem := List.mem_of_getElem? hcol
    unfold Breaker.writes
    rw [hsource]
    have hagree := @Flat.foldl_agree chunk i slot'
      (row.chunk.get col.kind col.srcColIdx row.rowIdx)
      (gatherDenseAggregateOutput b.layout t rowIdx) hflat
    rw [hkind, hnull] at hagree
    apply hagree
    · intro w hw
      obtain ⟨d, _, rfl⟩ := List.mem_map.mp hw
      rfl
    · intro w hw u hslot hvalue hu
      obtain ⟨⟨d, k⟩, hd, rfl⟩ := List.mem_map.mp hw
      obtain rfl := Option.some.inj hvalue
      obtain rfl : k = slot' := hslot
      rw [List.mem_zipIdx_iff_getElem?] at hd
      obtain rfl := Option.some.inj (hd.symm.trans hcol)
      exact hstores.decodeColumn hrow hmem
    · right
      refine ⟨⟨slot', some (t.decodeColumn rowIdx col), none⟩,
        List.mem_map.mpr ⟨(col, slot'), List.mem_zipIdx_iff_getElem?.mpr hcol, rfl⟩, rfl, ?_⟩
      rw [hstores.decodeColumn hrow hmem]
  | joined hsource hside hcolKind hcolSlot hlast hcol =>
    rename_i before after col
    unfold Breaker.writes
    rw [hsource]
    dsimp only
    have hcell : copyResolvedJoinColumn
        ⟨.inner, [], [], b.layout.descs, before ++ col :: after, none, false⟩ left.chunk left.rowIdx
        (some (t.decodeRow b.layout rowIdx)) col =
        ⟨col.outputChunkSlot, some (row.chunk.get kind slot row.rowIdx), 0⟩ := by
      unfold copyResolvedJoinColumn
      rw [hcolKind, hside, hcolSlot]
      dsimp only
      rw [hstores.decodeRow hrow, findRightColumn_value hcol]
    unfold resolvedJoinRow copyResolvedJoinRow
    dsimp only
    rw [List.map_append, List.map_append, List.map_cons, List.map_cons, hcell]
    have hends := @Flat.foldl_last chunk i (row.chunk.get kind slot row.rowIdx)
      ⟨col.outputChunkSlot, some (row.chunk.get kind slot row.rowIdx), some 0⟩ hflat
    rw [hkind] at hends
    refine hends rfl rfl fun w hw => ?_
    obtain ⟨cell, hcellMem, rfl⟩ := List.mem_map.mp hw
    obtain ⟨c, hc, rfl⟩ := List.mem_map.mp hcellMem
    have hslotEq : ∀ d, (copyResolvedJoinColumn d left.chunk left.rowIdx
        (some (t.decodeRow b.layout rowIdx)) c).outputChunkSlot = c.outputChunkSlot := by
      intro d
      unfold copyResolvedJoinColumn
      cases c.decodeKind.toTdcKind with
      | none => rfl
      | some k => cases c.side <;> rfl
    show OutputCell.outputChunkSlot _ ≠ _
    rw [hslotEq]
    exact hlast c hc

theorem Flat.reset (chunk : DataChunk) : Flat (reset chunk) :=
  ⟨fun _ => rfl, fun _ => rfl, fun _ => rfl, fun _ => rfl⟩

/-- What a source has written so far: no flag below the rows it wrote, and in every
row what its writes make of a chunk without flags there. -/
theorem Breaker.getData_rows (b : Breaker) (t : TupleDataCollection) (out : DataChunk)
    (picks : List (Nat × ChunkRow)) :
    (b.getData t out picks).count = picks.length ∧ Flat (b.getData t out picks) ∧
      (∀ s r, picks.length ≤ r → (b.getData t out picks).nulls s r = 0) ∧
      ∀ i pick, picks[i]? = some pick → ∃ chunk, Flat chunk ∧ (∀ s, chunk.nulls s i = 0) ∧
        ∀ kind s, (b.getData t out picks).get kind s i =
            ((b.writes t pick.1 pick.2).foldl (writeCell i) chunk).get kind s i ∧
          (b.getData t out picks).nulls s i =
            ((b.writes t pick.1 pick.2).foldl (writeCell i) chunk).nulls s i := by
  induction picks using List.reverseRecOn with
  | nil => exact ⟨rfl, Flat.reset out, fun _ _ _ => rfl, fun i pick h => by cases h⟩
  | append_singleton picks pick ih =>
    obtain ⟨hcount, hflat, hnulls, hrows⟩ := ih
    have hstep : b.getData t out (picks ++ [pick]) = b.emitRow t (b.getData t out picks) pick :=
      List.foldl_append
    have hnext : Flat ((b.writes t pick.1 pick.2).foldl (writeCell picks.length)
        (b.getData t out picks)) := hflat.foldl
    have hemit : b.emitRow t (b.getData t out picks) pick =
        { (b.writes t pick.1 pick.2).foldl (writeCell picks.length) (b.getData t out picks) with
          count := picks.length + 1 } := by
      unfold Breaker.emitRow
      rw [hcount]
    -- the rows of the picks so far are not touched any more
    have hframe {s r : Nat} {kind : TdcColumnKind} (hr : r ≠ picks.length) :=
      @Flat.foldl_frame _ picks.length s r kind (b.writes t pick.1 pick.2) hflat (Or.inl hr)
    rw [hstep, hemit]
    refine ⟨?_, ⟨hnext.int32, hnext.int64, hnext.double, hnext.string⟩, ?_, ?_⟩
    · rw [List.length_append, List.length_singleton]
    · intro s r hr
      rw [List.length_append, List.length_singleton] at hr
      exact (@hframe s r .int32 (by omega)).2.trans (hnulls s r (by omega))
    · intro i p hp
      by_cases hi : i < picks.length
      · rw [List.getElem?_append_left hi] at hp
        obtain ⟨chunk, hchunk, hzero, hcells⟩ := hrows i p hp
        refine ⟨chunk, hchunk, hzero, fun kind s => ⟨?_, ?_⟩⟩
        · exact (@hframe s i kind (by omega)).1.trans (hcells kind s).1
        · exact (@hframe s i kind (by omega)).2.trans (hcells kind s).2
      · have hlt := (List.getElem?_eq_some_iff.mp hp).1
        rw [List.length_append, List.length_singleton] at hlt
        obtain rfl : i = picks.length := by omega
        rw [List.getElem?_concat_length, Option.some.injEq] at hp
        subst hp
        exact ⟨b.getData t out picks, hflat, fun s => hnulls s _ (Nat.le_refl _),
          fun kind s => ⟨rfl, rfl⟩⟩

end Source

/-- **A value passes a breaker** unchanged, and without its null flag. -/
theorem Breaker.Passes.value {b : Breaker} {c c' : Cell} (h : b.Passes c c') :
    c'.value = c.value ∧ c'.isNull = false := by
  obtain ⟨hstores, hrow, hpick, hslot⟩ := h
  rename_i t rows picks out rowIdx i slot slot' left row kind
  obtain ⟨_, _, _, hrows⟩ := b.getData_rows t out picks
  obtain ⟨chunk, hflat, hnull, hcell⟩ := hrows i _ hpick
  obtain ⟨hget, hflag⟩ := @Breaker.Routes.writes _ _ _ _ left _ _ _ _ _ hslot hstores hrow hflat i
    (hnull slot')
  constructor
  · exact (hcell kind slot').1.trans hget
  · show decide ((b.getData t out picks).nulls slot' i ≠ 0) = false
    rw [(hcell kind slot').2, hflag]
    rfl

section Chain
variable {layout : TupleDataLayout} {col : OutputColumn} {ops : List ChainOperator} {c : Cell}
  {attr : TupleAttribute}

/-- The sink encodes an attribute from the stored value. -/
theorem encodeColumnFromRow_eq {t : TupleDataCollection} {rows : List ChunkRow} {rowIdx : Nat}
    {row : ChunkRow} {kind : TdcColumnKind} (hstores : Stores layout t rows)
    (hrow : rows[rowIdx]? = some row) (hkind : col.decodeKind.toTdcKind = some kind)
    (hcol : ∃ c ∈ layout.columns, c.kind = kind ∧ c.srcColIdx = col.chunkSlot) :
    encodeColumnFromRow layout t rowIdx col =
      some (row.chunk.get kind col.chunkSlot row.rowIdx) := by
  unfold encodeColumnFromRow
  rw [hkind]
  show (layout.columns.find? _).map _ = _
  cases hfind : layout.columns.find? fun c => c.srcColIdx = col.chunkSlot && c.kind = kind with
  | none =>
    obtain ⟨c, hc, hckind, hcslot⟩ := hcol
    have hnone := List.find?_eq_none.mp hfind c hc
    simp [hckind, hcslot] at hnone
  | some c =>
    have hp := List.find?_some hfind
    simp only [Bool.and_eq_true, decide_eq_true_eq] at hp
    rw [Option.map_some, hstores.decodeColumn hrow (List.mem_of_find?_eq_some hfind), hp.1, hp.2]

/-- **A value reaches its attribute** unchanged, and never as NULL. -/
theorem Reaches.value (h : Reaches layout col ops c attr) :
    attr.value = some c.value ∧ attr.isNull = false := by
  induction h with
  | emit hstores hrow hkind hcol =>
    exact ⟨encodeColumnFromRow_eq hstores hrow hkind hcol, rfl⟩
  | breaker hpass _ ih =>
    rw [← hpass.value.1]
    exact ih
  | streaming hvalue _ _ ih =>
    rw [← hvalue]
    exact ih

/-- A layout of one integer column. -/
def int32Layout : TupleDataLayout :=
  ⟨[⟨⟨.int32, 0⟩, 0, 23, 0⟩], 8, ⟨Nat.le_refl 0, show 4 ≤ 8 by decide⟩⟩

/-- The integer 7 in slot 0, with a null flag. -/
def seven (flag : UInt8) : Cell := ⟨⟨int32Chunk 7 flag, 0⟩, 0, .int32⟩

theorem stores_int32 (row : ChunkRow) : ∃ t, Stores int32Layout t [row] := by
  have hnew : Stores int32Layout ⟨8, 1, 0, 0, 0, fun _ => 0⟩ [] :=
    .new (by decide : 0 < 2 ^ 32) (show allocate 1 8 0 = _ from rfl)
  exact ⟨_, hnew.scatter rfl rfl⟩

/-- The integer is sorted, and sent to the receiver. -/
theorem reaches_seven (flag : UInt8) :
    ∃ attr, Reaches int32Layout ⟨.int32Int4, 0⟩ [.breaker ⟨int32Layout, .gather⟩] (seven flag)
      attr := by
  have hcol : ∃ c ∈ int32Layout.columns, c.kind = .int32 ∧ c.srcColIdx = 0 :=
    ⟨_, List.mem_cons_self, rfl, rfl⟩
  have hroute : Breaker.Routes ⟨int32Layout, .gather⟩ .int32 0 0 := .gather rfl hcol
  let picks : List (Nat × ChunkRow) := [(0, ⟨int32Chunk 0 0, 0⟩)]
  obtain ⟨t, ht⟩ := stores_int32 ⟨int32Chunk 7 flag, 0⟩
  have hpass : Breaker.Passes ⟨int32Layout, .gather⟩ (seven flag)
      ⟨⟨Breaker.getData ⟨int32Layout, .gather⟩ t (int32Chunk 0 0) picks, 0⟩, 0, .int32⟩ :=
    .intro ht rfl rfl hroute
  obtain ⟨u, hu⟩ := stores_int32
    ⟨Breaker.getData ⟨int32Layout, .gather⟩ t (int32Chunk 0 0) picks, 0⟩
  exact ⟨emitAttribute int32Layout u 0 _, .breaker hpass (.emit hu rfl rfl hcol)⟩

/-- **The NULL flag arrives exactly when there is none.** -/
theorem Reaches.keepsNullFlag_iff (h : Reaches layout col ops c attr) :
    KeepsNullFlag c attr ↔ c.isNull = false := by
  unfold KeepsNullFlag
  rw [h.value.2]
  exact eq_comm

/-- A value that is not NULL keeps its flag. -/
theorem keepsNullFlag_seven : ∃ attr, Reaches int32Layout ⟨.int32Int4, 0⟩
    [.breaker ⟨int32Layout, .gather⟩] (seven 0) attr ∧ KeepsNullFlag (seven 0) attr := by
  obtain ⟨attr, h⟩ := reaches_seven 0
  exact ⟨attr, h, h.keepsNullFlag_iff.mpr rfl⟩

/-- **The claim fails**: a NULL comes out as the stale integer of its slot. -/
theorem not_keepsNullFlag : ¬ ∀ (layout : TupleDataLayout) (col : OutputColumn)
    (ops : List ChainOperator) (c : Cell) (attr : TupleAttribute),
    Reaches layout col ops c attr → KeepsNullFlag c attr := by
  intro h
  obtain ⟨attr, hattr⟩ := reaches_seven 1
  have hkeeps := h _ _ _ _ _ hattr
  unfold KeepsNullFlag at hkeeps
  rw [hattr.value.2] at hkeeps
  exact absurd hkeeps (by decide)

end Chain

end NullFlags
end PgYaap
