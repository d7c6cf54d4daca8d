import PgYaap.GrowthLoops
import PgYaap.SortedSources
import PgYaap.TopNRows

/-! # The top-N operator

All workers sink into one row store, under a lock that is taken for every row. Until the store has
as many rows as the bound, rows are appended to it; then a row replaces the worst stored one where
it comes before that one. When all workers have combined, the indices of the rows are sorted, and
the source gathers the rows in that order.

What is kept and emitted are the first rows of all that have arrived, in every interleaving of the
workers, as long as no row has a NULL or a NaN key and no key column is dictionary encoded. A row
that has a NULL is compared by the zero that stands under it, and comes out without its flag. -/
namespace PgYaap
namespace PhysicalTopN

open AggregateStates BoundedSelection SortKeys SortedSources TopNRows TupleDataCollection
open HashJoinBuild hiding growCopyRow
open NullFlags hiding gather

/-! ## The operator -/

/-- `PhysicalTopN`, as its global state resolves it. -/
structure TopN extends SinkColumns where
  sortKeys : List SortKeyDesc
  maxRows : Nat
  maxRows_lt : maxRows < 2 ^ 32

/-- A value of the column arrays of a chunk, past the dictionary of the slot. -/
def rawColumn (row : ChunkRow) (kind : TdcColumnKind) (slot : Nat) : Datum :=
  match kind with
  | .int32 => .int32 (row.1.int32.columns slot row.2)
  | .int64 => .int64 (row.1.int64.columns slot row.2)
  | .double => .double (row.1.double.columns slot row.2)
  | .stringRef => .stringRef (row.1.string.columns slot row.2)

/-- `CopyStoredRow`. -/
def copyStoredRow (layout : TupleDataLayout) : PayloadStores.CopyRow :=
  fun src srcRow dst dstRow => (copyBuildRow layout src srcRow dst dstRow).mapError fun _ =>
    "pg_yaap: top-N TDC ran out of heap"

/-- A layout that has columns only. -/
def columnsOnly (layout : TupleDataLayout) : AggregateLayout where
  toTupleDataLayout := layout
  aggregates := []
  inside := GrowthLoops.inside_nil _
  ordered := AggregateHashTable.ordered_nil
  apart := GrowthLoops.apart_nil _

namespace TopN

variable (desc : TopN)

/-- `RebuildGlobalTdc`. -/
def rebuildGlobalTdc (t : TupleDataCollection) (row : ChunkRow) (replaceRowIdx : Nat) :
    Except String TupleDataCollection :=
  rebuildTdc "pg_yaap: global top-N rebuild overflow" "pg_yaap: global top-N append overflow"
    (copyStoredRow desc.layout) desc.layout desc.maxRows t row replaceRowIdx

/-- The worst stored row. -/
def worst (t : TupleDataCollection) : Nat := findWorstRowIndex desc.layout desc.sortKeys t

/-- One turn of the loop of `SinkChunk`, under the lock. -/
def sinkRow (t : TupleDataCollection) (row : ChunkRow) : Except String TupleDataCollection :=
  if desc.maxRows ≤ t.rowCount then
    if compareChunkRowToStoredRow (rawColumn row) desc.toSinkColumns desc.sortKeys t
        (desc.worst t) = .lt then
      desc.rebuildGlobalTdc t row (desc.worst t)
    else .ok t
  else if t.hasSpaceForAppend (requiredHeapBytesForChunkRow desc.layout row.1 row.2) = false then
    desc.rebuildGlobalTdc t row uint32Max
  else
    match t.appendRow with
    | none => .error "pg_yaap: global top-N row capacity exceeded"
    | some (t, dst) => scatterGroupOnly desc.layout t dst row.1 row.2

/-- The shared row store, as it is allocated. -/
def init : Except String TupleDataCollection :=
  allocate desc.maxRows desc.layout.rowWidth (defaultHeapCapacity desc.layout desc.maxRows)

/-- **Sinking**: the rows of all workers, one at a time. -/
def sink (workers : List (List ChunkRow)) (order : List (Nat × Nat)) :
    Except String TupleDataCollection := do
  let t ← desc.init
  (namedRows workers order).foldlM desc.sinkRow t

/-- The test of the sort of `Finalize`. -/
def less (t : TupleDataCollection) (lhs rhs : Nat) : Bool :=
  compareStoredRows desc.layout desc.sortKeys t lhs rhs = .lt

/-- What `Finalize` and `GetData` make of the row store. -/
def Emits (t : TupleDataCollection) (chunks : List DataChunk) : Prop :=
  SortedSources.Emits (desc.less t) (gatherRow (columnsOnly desc.layout) t) t.rowCount chunks

/-- The values of the stored rows. -/
def storedRows (t : TupleDataCollection) : List (List (Option Datum)) :=
  (List.range t.rowCount).map fun i => (t.decodeRow desc.layout i).map some

/-! ## First rows -/

/-- **A top-N of rows**: the store has the first rows of them, those are what is emitted, in order
and each once, and the source does not fail on strings that a chunk can take. -/
structure IsTopN (rows : List ChunkRow) (t : TupleDataCollection) : Prop where
  holds : ∃ first, TakesFirst (sqlCompareRows desc.sortKeys) desc.maxRows
      (rows.map (sqlRow desc.layout.descs)) first ∧ (desc.storedRows t).Perm first
  emits : ∀ chunks, desc.Emits t chunks →
    TakesFirst (sqlCompareRows desc.sortKeys) desc.maxRows (rows.map (sqlRow desc.layout.descs))
        (emittedRows desc.layout.descs chunks) ∧
      (emittedRows desc.layout.descs chunks).Perm (desc.storedRows t)
  drains : (∀ row ∈ rows, StringsFit row desc.layout.columns) → ∃ chunks, desc.Emits t chunks

/-- **A row that the operator compares as SQL does**: it has no NULL, no key is a NaN, and none is
dictionary encoded. -/
structure Comparable (row : ChunkRow) : Prop
    extends Sortable desc.sortKeys desc.layout.descs row where
  raw : ReadsKeys (rawColumn row) desc.layout desc.sortKeys row

end TopN

/-! ## One row -/

section Sink

variable {desc : TopN} {t t' : TupleDataCollection} {seen rows : List ChunkRow} {row : ChunkRow}

theorem copyStoredRow_copies (layout : TupleDataLayout) :
    CopiesRows layout (copyStoredRow layout) := by
  intro src t dst t' srcRow rowIdx rows _ h happ hok
  exact h.append_copy happ (mapError_eq_ok hok)

/-- A row that is worse than all rows of a full store changes nothing, even in a store for none. -/
theorem KeepsBest.none (h : KeepsBest desc.layout desc.sortKeys 0 seen t)
    (hok : (if compareChunkRowToStoredRow (rawColumn row) desc.toSinkColumns desc.sortKeys t
        (desc.worst t) = .lt then
      rebuildTdc "pg_yaap: global top-N rebuild overflow" "pg_yaap: global top-N append overflow"
        (copyStoredRow desc.layout) desc.layout 0 t row (desc.worst t)
      else .ok t) = .ok t') :
    KeepsBest desc.layout desc.sortKeys 0 (seen ++ [row]) t' := by
  obtain ⟨kept, hholds, hselects⟩ := h
  have hnone : kept = [] := List.eq_nil_of_length_eq_zero (by
    rw [hselects.1]
    exact Nat.zero_min _)
  subst hnone
  split at hok
  · exact absurd hok (rebuildTdc_zero hholds.rowCount)
  · obtain rfl := Except.ok.inj hok
    exact ⟨[], hholds, hselects.skip (Nat.zero_le _) fun a ha => absurd ha List.not_mem_nil⟩

/-- **A row that is sunk** is among those that the best are kept of. -/
theorem sinkRow_keeps (h : KeepsBest desc.layout desc.sortKeys desc.maxRows seen t)
    (hrow : desc.Comparable row)
    (hseen : ∀ row ∈ seen, Sortable desc.sortKeys desc.layout.descs row)
    (hok : desc.sinkRow t row = .ok t') :
    KeepsBest desc.layout desc.sortKeys desc.maxRows (seen ++ [row]) t' := by
  unfold TopN.sinkRow at hok
  by_cases hfull : desc.maxRows ≤ t.rowCount
  · rw [if_pos hfull] at hok
    rcases Nat.eq_zero_or_pos desc.maxRows with hzero | hpos
    · unfold TopN.rebuildGlobalTdc at hok
      rw [hzero] at h hok ⊢
      exact KeepsBest.none h hok
    · exact h.full hpos hfull (copyStoredRow_copies desc.layout) hrow.raw hrow.toSortable hseen hok
  · rw [if_neg hfull] at hok
    have hroom : t.rowCount < desc.maxRows := by omega
    split at hok
    · have hlt := desc.maxRows_lt
      refine h.rebuild hroom (copyStoredRow_copies desc.layout) ?_ hok
      unfold uint32Max
      omega
    · split at hok
      · cases hok
      · rename_i dst rowIdx happ
        exact h.append hroom happ hok

/-- **Rows that are sunk**, one after the other. -/
theorem sinkRows_keep (rows : List ChunkRow) : ∀ {seen : List ChunkRow} {t t' : TupleDataCollection},
    KeepsBest desc.layout desc.sortKeys desc.maxRows seen t →
      (∀ row ∈ seen ++ rows, desc.Comparable row) → rows.foldlM desc.sinkRow t = .ok t' →
        KeepsBest desc.layout desc.sortKeys desc.maxRows (seen ++ rows) t' := by
  induction rows with
  | nil =>
    intro seen t t' h _ hok
    rw [← Except.ok.inj hok, List.append_nil]
    exact h
  | cons row rows ih =>
    intro seen t t' h hall hok
    rw [List.foldlM_cons] at hok
    obtain ⟨mid, hmid, hok⟩ := bind_eq_ok hok
    have hrow := hall row (List.mem_append_right _ List.mem_cons_self)
    have hnext := sinkRow_keeps h hrow
      (fun row hmem => (hall row (List.mem_append_left _ hmem)).toSortable) hmid
    have hrest := ih hnext (by rwa [List.append_assoc]) hok
    rwa [List.append_assoc] at hrest

/-- What the operator has sunk. -/
theorem sink_keeps {workers : List (List ChunkRow)} {order : List (Nat × Nat)}
    (hok : desc.sink workers order = .ok t)
    (hall : ∀ row ∈ namedRows workers order, desc.Comparable row) :
    KeepsBest desc.layout desc.sortKeys desc.maxRows (namedRows workers order) t := by
  unfold TopN.sink at hok
  obtain ⟨new, hnew, hok⟩ := bind_eq_ok hok
  have hempty : KeepsBest desc.layout desc.sortKeys desc.maxRows [] new := by
    refine ⟨[], ?_, selects_nil _ _⟩
    have hheap : defaultHeapCapacity desc.layout desc.maxRows < 2 ^ 32 :=
      Nat.lt_of_le_of_lt (Nat.min_le_right _ _) (by decide)
    exact (allocate_holds hheap hnew).1
  have hkeeps := sinkRows_keep _ hempty (by rwa [List.nil_append]) hok
  rwa [List.nil_append] at hkeeps

/-! ## What is emitted -/

/-- The values of stored rows are those of their chunk rows. -/
theorem storedRows_eq {kept : List ChunkRow} (h : HoldsChunkRows desc.layout t kept)
    (hkept : ∀ row ∈ kept, Sortable desc.sortKeys desc.layout.descs row) :
    desc.storedRows t = kept.map (sqlRow desc.layout.descs) := by
  have hcount : t.rowCount = kept.length := by rw [h.rowCount, List.length_map]
  unfold TopN.storedRows
  refine List.ext_getElem (by simp [hcount]) fun i hi hi' => ?_
  rw [List.length_map] at hi'
  have hi := List.getElem?_eq_getElem hi'
  have hvalue := (h.row i (storedRow desc.layout kept[i])
    (by rw [List.getElem?_map, hi]; rfl)).decodeRow
  rw [List.getElem_map, List.getElem_map, List.getElem_range, hvalue]
  unfold storedRow scatterGroupColumns DataChunk.groupColumns sqlRow
  rw [List.map_map]
  refine List.map_congr_left fun place hplace => ?_
  exact ((hkept _ (List.getElem_mem hi')).sqlCell hplace).symm

theorem places_columnsOnly (layout : TupleDataLayout) :
    places (columnsOnly layout) = layout.descs := by
  show layout.descs ++ [] = layout.descs
  exact List.append_nil _

/-- A stored row can be gathered, and has the values of its chunk row. -/
theorem gather_stored {kept : List ChunkRow} (h : HoldsChunkRows desc.layout t kept) {i : Nat}
    (hrow : kept[i]? = some row) :
    ∃ writes, gather (columnsOnly desc.layout) t i = .ok writes ∧
      Carries desc.layout.descs writes row := by
  rw [← places_columnsOnly]
  have hstates : t.states (columnsOnly desc.layout) i = scatteredStates (columnsOnly desc.layout) row :=
    funext fun a => absurd a.isLt (Nat.not_lt_zero _)
  have hzero : AveragesZero (columnsOnly desc.layout) row := fun a agg hagg => by cases hagg
  exact gather_carries (fun col hcol => decodeColumn_of_holds h hrow hcol) hstates hzero

/-- The first rows are first as SQL sees them. -/
theorem takesFirst_sqlRows {keys : List SortKeyDesc} {places : List TdcColumnDesc} {n : Nat}
    {out : List ChunkRow} (h : TakesFirst (compareChunkRows keys places) n rows out) :
    TakesFirst (sqlCompareRows keys) n (rows.map (sqlRow places)) (out.map (sqlRow places)) :=
  @TakesFirst.map _ _ (sqlCompareRows keys) (sqlRow places) n rows out h

/-- **The best rows make a top-N.** -/
theorem isTopN_of_keepsBest (h : KeepsBest desc.layout desc.sortKeys desc.maxRows rows t)
    (hall : ∀ row ∈ rows, desc.Comparable row) : desc.IsTopN rows t := by
  obtain ⟨kept, hholds, hselects⟩ := h
  have hcount : t.rowCount = kept.length := by rw [hholds.rowCount, List.length_map]
  have hkept : ∀ row ∈ kept, Sortable desc.sortKeys desc.layout.descs row :=
    fun row hrow => (hall row (hselects.subset hrow)).toSortable
  have hstored := storedRows_eq hholds hkept
  have hless : ComparesRows (desc.less t) desc.sortKeys desc.layout.descs kept := by
    intro i j row row' hi hj
    unfold TopN.less
    rw [decide_eq_true_eq, compareStoredRows_eq hholds hi hj
      (hkept row (List.mem_of_getElem? hi)) (hkept row' (List.mem_of_getElem? hj))]
  refine ⟨?_, ?_, ?_⟩
  · -- the stored rows are those that a sort of them takes first
    obtain ⟨rowFor, hrowFor⟩ := exists_rowFor kept
    obtain ⟨indices, hsorts⟩ := exists_sorts (hless.rowFor hrowFor)
    obtain ⟨hperm, hsorted⟩ := hsorts.inOrder (hless.rowFor hrowFor)
    have hrows := hperm.map rowFor
    rw [map_range_rowFor hrowFor] at hrows
    refine ⟨_, takesFirst_sqlRows (hselects.takesFirst hrows hsorted), ?_⟩
    rw [hstored]
    exact (hrows.map _).symm
  · intro chunks hemits
    unfold TopN.Emits at hemits
    rw [hcount] at hemits
    obtain ⟨out, hperm, hsorted, hout⟩ := hemits.sorted hless
      (fun i row hrow writes hwrites => by
        obtain ⟨writes', hgather, hcarries⟩ := gather_stored hholds hrow
        rw [gatherRow_eq_ok hwrites] at hgather
        rwa [Except.ok.inj hgather])
      (fun row hrow => (hkept row hrow).notNull)
    rw [hout, hstored]
    exact ⟨takesFirst_sqlRows (hselects.takesFirst hperm hsorted), hperm.map _⟩
  · intro hfit
    unfold TopN.Emits
    rw [hcount]
    refine exists_emits hless (fun i hi => ?_) (HashJoinProbe.int32Chunk 0 0)
    have hrow := List.getElem?_eq_getElem hi
    obtain ⟨writes, hgather, -⟩ := gather_stored hholds hrow
    refine ⟨writes, gatherRow_of_fits (hfit _ (hselects.subset (List.mem_of_getElem? hrow)))
      (fun col hcol => decodeColumn_of_holds hholds hrow hcol) hgather⟩

/-- A top-N does not depend on the order of the rows. -/
theorem TopN.IsTopN.perm {rows' : List ChunkRow} (h : desc.IsTopN rows t) (hperm : rows.Perm rows') :
    desc.IsTopN rows' t := by
  have hrows : ∀ out, TakesFirst (sqlCompareRows desc.sortKeys) desc.maxRows
      (rows.map (sqlRow desc.layout.descs)) out →
        TakesFirst (sqlCompareRows desc.sortKeys) desc.maxRows
          (rows'.map (sqlRow desc.layout.descs)) out := by
    rintro out ⟨sorted, hsorted, horder, hout⟩
    exact ⟨sorted, hsorted.trans (hperm.map _), horder, hout⟩
  obtain ⟨first, hfirst, hstored⟩ := h.holds
  refine ⟨⟨first, hrows _ hfirst, hstored⟩, fun chunks hemits => ?_, fun hfit => ?_⟩
  · exact ⟨hrows _ (h.emits chunks hemits).1, (h.emits chunks hemits).2⟩
  · exact h.drains fun row hrow => hfit row (hperm.subset hrow)

end Sink

/-- **The top-N operator keeps and emits the first rows**, in every interleaving of its workers:
at any time those of the rows so far, and those of all rows at the end. -/
theorem sink_isTopN (desc : TopN) (workers : List (List ChunkRow)) (order : List (Nat × Nat))
    (t : TupleDataCollection) (horder : Interleaving workers order)
    (hok : desc.sink workers order = .ok t)
    (hall : ∀ row ∈ namedRows workers order, desc.Comparable row) :
    desc.IsTopN (namedRows workers order) t ∧
      (positions workers ⊆ order → desc.IsTopN workers.flatten t) := by
  have htop := isTopN_of_keepsBest (sink_keeps hok hall) hall
  exact ⟨htop, fun hevery => htop.perm (horder.perm_flatten hevery)⟩

/-! ## Two rows of one column -/

theorem int4_placed : Placed 0 [⟨⟨.int32, 0⟩, 0, 23, 0⟩] 8 :=
  ⟨Nat.zero_le _, show 0 + 4 ≤ 8 by decide⟩

theorem one_lt_uint32 : 1 < 2 ^ 32 := by decide

/-- `ORDER BY k LIMIT 1` over an integer column. -/
def leastInt4 : TopN where
  schema := [⟨.int32Int4, 0⟩]
  layout := ⟨[⟨⟨.int32, 0⟩, 0, 23, 0⟩], 8, int4_placed⟩
  built := rfl
  sortKeys := [⟨0, true, false⟩]
  maxRows := 1
  maxRows_lt := one_lt_uint32

theorem int4_comparable (v : Int32) :
    leastInt4.Comparable (HashJoinProbe.int32Chunk v 0, 0) where
  notNull := fun _ _ => rfl
  notNaN := by
    intro key hkey place hplace
    obtain rfl := List.mem_singleton.1 hkey
    obtain rfl := Option.some.inj hplace
    rfl
  raw := by
    intro key hkey col hcol
    obtain rfl := List.mem_singleton.1 hkey
    obtain rfl := Option.some.inj hcol
    rfl

theorem int4_interleaving (a b : ChunkRow) : Interleaving [[a], [b]] [(0, 0), (1, 0)] :=
  ⟨by decide, fun _ h => h⟩

/-- The second worker's row replaces that of the first. -/
theorem sink_isTopN_int4 :
    ∃ t, leastInt4.sink [[(HashJoinProbe.int32Chunk 5 0, 0)], [(HashJoinProbe.int32Chunk 3 0, 0)]]
        [(0, 0), (1, 0)] = .ok t ∧
      leastInt4.IsTopN [(HashJoinProbe.int32Chunk 5 0, 0), (HashJoinProbe.int32Chunk 3 0, 0)] t := by
  obtain ⟨t, hsink⟩ : ∃ t, leastInt4.sink [[(HashJoinProbe.int32Chunk 5 0, 0)],
      [(HashJoinProbe.int32Chunk 3 0, 0)]] [(0, 0), (1, 0)] = .ok t := ⟨_, rfl⟩
  refine ⟨t, hsink, (sink_isTopN leastInt4 _ _ t (int4_interleaving _ _) hsink ?_).1⟩
  intro row hrow
  obtain rfl | hrow := List.mem_cons.1 hrow
  · exact int4_comparable 5
  · obtain rfl := List.mem_singleton.1 hrow
    exact int4_comparable 3

/-- **A NULL is kept as the least value.** A zero stands under its flag; five is dropped for it,
and what is stored is a row with a zero, which never arrived. -/
theorem not_sink_isTopN :
    ¬ ∀ (desc : TopN) (workers : List (List ChunkRow)) (order : List (Nat × Nat))
        (t : TupleDataCollection), Interleaving workers order → positions workers ⊆ order →
      desc.sink workers order = .ok t → desc.IsTopN workers.flatten t := by
  intro hall
  have htop := hall leastInt4
    [[(HashJoinProbe.int32Chunk 0 1, 0)], [(HashJoinProbe.int32Chunk 5 0, 0)]] [(0, 0), (1, 0)] _
    (int4_interleaving _ _) (fun _ h => h) rfl
  obtain ⟨first, hfirst, hperm⟩ := htop.holds
  have hstored : [some (.int32 0)] ∈ first := by
    apply hperm.subset
    decide
  have hmem := hfirst.mem hstored
  revert hmem
  decide

end PhysicalTopN
end PgYaap
