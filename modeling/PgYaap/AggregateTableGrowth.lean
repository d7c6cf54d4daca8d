import PgYaap.AggregateHashTableRuns
import PgYaap.TupleDataCollectionGrowth

/-! # Growing a table until its rows fit

Before a batch or a row is entered, the row store of the table is grown until it has room for
it. A turn of that loop copies the rows into a larger row store, and enters them in a directory
whose capacity is chosen anew from the row capacity. The copy only needs the room that the rows
have taken, and the rehash only needs a slot for every row. -/
namespace PgYaap

open ColumnSlots AggregateStates HashJoinBuild ProbedTables TupleDataCollection

namespace AggregateHashTable

/-! ## What fits -/

/-- `RequiredHeapBytesForChunkRows`. -/
def requiredHeapBytesForChunkRows (layout : AggregateLayout) (chunk : DataChunk)
    (rowIndices : List Nat) : Nat :=
  min (rowIndices.map
    (requiredHeapBytesForChunkRow layout.toTupleDataLayout chunk)).sum uint32Max

/-- `PartitionNeedsGrowForChunkBatch`. -/
def partitionNeedsGrowForChunkBatch (layout : AggregateLayout) (t : TupleDataCollection)
    (chunk : DataChunk) (rowIndices : List Nat) : Bool :=
  if t.rowCapacity < t.rowCount + rowIndices.length then true
  else !t.hasSpaceForAppend (requiredHeapBytesForChunkRows layout chunk rowIndices)

/-- `PartitionNeedsGrowForRow`, for a row of another row store: only its lengths are read. -/
def partitionNeedsGrowForRow (layout : AggregateLayout) (t src : TupleDataCollection)
    (srcRow : Nat) : Bool :=
  !t.hasSpaceForAppend (requiredHeapBytesForRow layout.toTupleDataLayout src srcRow)

theorem partitionNeedsGrowForChunkBatch_eq_false {layout : AggregateLayout}
    {t : TupleDataCollection} {chunk : DataChunk} {rowIndices : List Nat} :
    partitionNeedsGrowForChunkBatch layout t chunk rowIndices = false ↔
      t.rowCount + rowIndices.length ≤ t.rowCapacity ∧
        t.hasSpaceForAppend (requiredHeapBytesForChunkRows layout chunk rowIndices) = true := by
  unfold partitionNeedsGrowForChunkBatch
  split
  · rename_i hfull
    constructor
    · intro h
      cases h
    · rintro ⟨hfit, -⟩
      omega
  · rename_i hfit
    rw [Bool.not_eq_false']
    exact ⟨fun h => ⟨by omega, h⟩, fun h => h.2⟩

theorem partitionNeedsGrowForRow_eq_false {layout : AggregateLayout}
    {t src : TupleDataCollection} {srcRow : Nat} :
    partitionNeedsGrowForRow layout t src srcRow = false ↔
      t.hasSpaceForAppend (requiredHeapBytesForRow layout.toTupleDataLayout src srcRow) =
        true := by
  rw [partitionNeedsGrowForRow, Bool.not_eq_false']

/-! ## Copying rows -/

/-- The heap bytes of the first `n` rows of a row store. -/
def rowsHeapBytes (layout : TupleDataLayout) (t : TupleDataCollection) (n : Nat) : Nat :=
  ((List.range n).map fun r => rowHeapBytes (t.decodeRow layout r)).sum

theorem rowsHeapBytes_succ (layout : TupleDataLayout) (t : TupleDataCollection) (n : Nat) :
    rowsHeapBytes layout t (n + 1) =
      rowsHeapBytes layout t n + rowHeapBytes (t.decodeRow layout n) := by
  rw [rowsHeapBytes, List.range_succ, List.map_append, List.sum_append, List.map_singleton,
    List.sum_singleton, rowsHeapBytes]

/-- Rows without strings need no heap. -/
theorem rowsHeapBytes_of_fixed {layout : TupleDataLayout} (h : layout.hasStringRef = false)
    (t : TupleDataCollection) (n : Nat) : rowsHeapBytes layout t n = 0 := by
  have hfixed : ∀ col ∈ layout.columns, col.kind ≠ .stringRef := by
    intro col hcol hkind
    rw [TupleDataLayout.hasStringRef, List.any_eq_false] at h
    exact h col hcol (decide_eq_true hkind)
  have hrow : ∀ r, rowHeapBytes (t.decodeRow layout r) = 0 := by
    intro r
    rw [rowHeapBytes, List.sum_eq_zero_iff]
    intro bytes hbytes
    rw [decodeRow, List.map_map] at hbytes
    obtain ⟨col, hcol, rfl⟩ := List.mem_map.1 hbytes
    exact valueHeapBytes_of_fixed (hfixed col hcol)
  induction n with
  | zero => rfl
  | succ n ih => rw [rowsHeapBytes_succ, ih, hrow]

/-- The turns of a loop over a range, and the next one. -/
theorem foldlM_range_succ_eq_ok {β ε : Type} {f : β → Nat → Except ε β} {k : Nat} {b mid b' : β}
    (hmid : (List.range k).foldlM f b = .ok mid) (hturn : f mid k = .ok b') :
    (List.range (k + 1)).foldlM f b = .ok b' := by
  rw [List.range_succ, List.foldlM_append, bind_eq_of_eq_ok hmid, List.foldlM_cons,
    bind_eq_of_eq_ok hturn]
  rfl

section Copy

variable {layout : AggregateLayout} {src dst dst' old new t : TupleDataCollection}
  {owner : String} {srcRow dstRow : Nat}

theorem copyAggregates_eq (layout : AggregateLayout) (src : TupleDataCollection) (srcRow : Nat)
    (dst : TupleDataCollection) (dstRow : Nat) :
    ∃ rows, copyAggregates layout src srcRow dst dstRow = { dst with rows := rows } := by
  unfold copyAggregates
  induction layout.aggregates generalizing dst with
  | nil => exact ⟨dst.rows, rfl⟩
  | cons agg aggs ih =>
    rw [List.foldl_cons]
    obtain ⟨rows, hrows⟩ := ih { dst with
      rows := dst.rows.write (dst.getRow dstRow + agg.offset)
        (src.rows.read (src.getRow srcRow + agg.offset) agg.kind.width) }
    exact ⟨rows, hrows⟩

/-- **`CopyTdcRow`** takes the heap bytes of the row, and changes no counter else. -/
theorem copyTdcRow_eq (h : copyTdcRow layout src srcRow dst dstRow = .ok dst') :
    ∃ rows, dst' = { dst with
      heapUsed := dst.heapUsed + rowHeapBytes (src.decodeRow layout.toTupleDataLayout srcRow)
      rows := rows } := by
  unfold copyTdcRow at h
  obtain ⟨mid, hmid, hpure⟩ := bind_eq_ok h
  obtain rfl := Except.ok.inj hpure
  obtain ⟨rows, rfl⟩ := copyBuildRow_eq (mapError_eq_ok hmid)
  obtain ⟨rows', hrows'⟩ := copyAggregates_eq layout src srcRow { dst with
    heapUsed := dst.heapUsed + rowHeapBytes (src.decodeRow layout.toTupleDataLayout srcRow)
    rows := rows } dstRow
  exact ⟨rows', hrows'⟩

/-- A row that the heap has room for is copied. -/
theorem copyTdcRow_of_fits (h : dst.heapUsed +
      rowHeapBytes (src.decodeRow layout.toTupleDataLayout srcRow) ≤ dst.heapCapacity) :
    ∃ dst', copyTdcRow layout src srcRow dst dstRow = .ok dst' := by
  obtain ⟨mid, hmid⟩ := @copyBuildRow_of_fits src dst srcRow dstRow layout.toTupleDataLayout h
  refine ⟨copyAggregates layout src srcRow mid dstRow, ?_⟩
  unfold copyTdcRow
  rw [hmid]
  rfl

/-- **The copy loop** counts the rows and the heap bytes of the rows. -/
theorem growCopyRows_eq (n : Nat) : ∀ {t : TupleDataCollection},
    (List.range n).foldlM (growCopyRow owner layout old) new = .ok t →
    ∃ rows, t = { new with
      rowCount := new.rowCount + n
      heapUsed := new.heapUsed + rowsHeapBytes layout.toTupleDataLayout old n
      rows := rows } := by
  induction n with
  | zero =>
    intro t h
    rw [← Except.ok.inj h]
    exact ⟨new.rows, rfl⟩
  | succ n ih =>
    intro t h
    obtain ⟨mid, hmid, hturn⟩ := foldlM_range_succ h
    obtain ⟨rows, rfl⟩ := ih hmid
    unfold growCopyRow at hturn
    split at hturn
    · cases hturn
    · rename_i dst r happ
      obtain ⟨-, rfl, rfl⟩ := appendRow_eq happ
      obtain ⟨rows', rfl⟩ := copyTdcRow_eq hturn
      refine ⟨rows', ?_⟩
      rw [rowsHeapBytes_succ, ← Nat.add_assoc new.heapUsed]
      rfl

/-- **The copy loop succeeds** where the rows and their heap bytes fit. -/
theorem growCopyRows_of_fits (n : Nat) (hrows : new.rowCount + n ≤ new.rowCapacity)
    (hheap : new.heapUsed + rowsHeapBytes layout.toTupleDataLayout old n ≤ new.heapCapacity) :
    ∃ t, (List.range n).foldlM (growCopyRow owner layout old) new = .ok t := by
  induction n with
  | zero => exact ⟨new, rfl⟩
  | succ n ih =>
    rw [rowsHeapBytes_succ] at hheap
    obtain ⟨mid, hmid⟩ := ih (by omega) (by omega)
    have hcounters := growCopyRows_eq n hmid
    obtain ⟨rows, rfl⟩ := hcounters
    have hturn : ∃ t, growCopyRow owner layout old { new with
        rowCount := new.rowCount + n
        heapUsed := new.heapUsed + rowsHeapBytes layout.toTupleDataLayout old n
        rows := rows } n = .ok t := by
      unfold growCopyRow appendRow
      rw [if_neg (by dsimp only; omega)]
      apply copyTdcRow_of_fits
      dsimp only
      omega
    obtain ⟨t, ht⟩ := hturn
    exact ⟨t, foldlM_range_succ_eq_ok hmid ht⟩

/-! ## The new row store -/

/-- The new row store of `GrowTdcForPartition`, with the rows of the old one. -/
def growRowStore (owner : String) (layout : AggregateLayout) (old : TupleDataCollection)
    (requiredHeapBytes : Nat) : Except String TupleDataCollection := do
  let newCapacity ← clampRowCapacity (max (old.rowCapacity * 2 % 2 ^ 32) (old.rowCount + 1))
    layout.rowWidth requiredHeapBytes (old.rowCount + 1)
  let heapCapacity ← growHeapCapacity layout.toTupleDataLayout old newCapacity requiredHeapBytes
  let new ← allocate newCapacity layout.rowWidth heapCapacity
  (List.range old.rowCount).foldlM (growCopyRow owner layout old) new

/-- **Growing**: the new sizes, the rows of the old row store, and the heap bytes they need. -/
theorem growRowStore_grown {required : Nat}
    (h : growRowStore owner layout old required = .ok t) :
    Grown layout.toTupleDataLayout old required t ∧
      t.heapUsed = rowsHeapBytes layout.toTupleDataLayout old old.rowCount := by
  unfold growRowStore at h
  obtain ⟨newCapacity, hclamp, h⟩ := bind_eq_ok h
  obtain ⟨heapCapacity, hheap, h⟩ := bind_eq_ok h
  obtain ⟨new, hnew, h⟩ := bind_eq_ok h
  obtain ⟨hcheck, rfl⟩ := allocate_eq hnew
  obtain ⟨rows, rfl⟩ := growCopyRows_eq _ h
  exact ⟨⟨hclamp, hheap, hcheck, rfl, Nat.zero_add _⟩, Nat.zero_add _⟩

/-- **The row store grows** where its new sizes pass the check, and the rows fit. -/
theorem growRowStore_of_sizes {required newCapacity heapCapacity : Nat} (owner : String)
    (hclamp : clampRowCapacity (max (old.rowCapacity * 2 % 2 ^ 32) (old.rowCount + 1))
      layout.rowWidth required (old.rowCount + 1) = .ok newCapacity)
    (hgrow : growHeapCapacity layout.toTupleDataLayout old newCapacity required =
      .ok heapCapacity)
    (hcheck : checkFlatAllocSize newCapacity layout.rowWidth heapCapacity = .ok ())
    (hrows : old.rowCount ≤ newCapacity)
    (hheap : rowsHeapBytes layout.toTupleDataLayout old old.rowCount ≤ heapCapacity) :
    ∃ t, growRowStore owner layout old required = .ok t ∧ t.rowCapacity = newCapacity ∧
      t.heapCapacity = heapCapacity := by
  have hnew : allocate newCapacity layout.rowWidth heapCapacity =
      .ok ⟨layout.rowWidth, newCapacity, 0, heapCapacity, 0, fun _ => 0⟩ := by
    rw [allocate, bind_eq_of_eq_ok hcheck]
    rfl
  obtain ⟨t, ht⟩ := @growCopyRows_of_fits layout old
    ⟨layout.rowWidth, newCapacity, 0, heapCapacity, 0, fun _ => 0⟩ owner old.rowCount
    (by dsimp only; omega) (by dsimp only; omega)
  obtain ⟨bytes, heq⟩ := growCopyRows_eq _ ht
  refine ⟨t, ?_, by rw [heq], by rw [heq]⟩
  rw [growRowStore, bind_eq_of_eq_ok hclamp, bind_eq_of_eq_ok hgrow, bind_eq_of_eq_ok hnew]
  exact ht

/-- **Growing** is the new row store, and a rehash into a directory for its row capacity. -/
theorem growTdc_eq_ok {required : Nat} {aht : AggregateHashTable} :
    growTdc owner layout old required = .ok (aht, t) ↔
      growRowStore owner layout old required = .ok t ∧
      rehash layout (init (chooseCapacity t.rowCapacity) (chooseCapacity_powerOfTwo _)) t =
        .ok aht := by
  constructor
  · intro h
    unfold growTdc at h
    obtain ⟨newCapacity, hclamp, h⟩ := bind_eq_ok h
    obtain ⟨heapCapacity, hheap, h⟩ := bind_eq_ok h
    obtain ⟨new, hnew, h⟩ := bind_eq_ok h
    obtain ⟨copied, hcopied, h⟩ := bind_eq_ok h
    obtain ⟨table, htable, hpure⟩ := bind_eq_ok h
    obtain ⟨rfl, rfl⟩ := Prod.mk.inj (Except.ok.inj hpure)
    have hstore : growRowStore owner layout old required = .ok copied := by
      unfold growRowStore
      rw [bind_eq_of_eq_ok hclamp, bind_eq_of_eq_ok hheap, bind_eq_of_eq_ok hnew]
      exact hcopied
    have hcapacity : copied.rowCapacity = newCapacity := by
      obtain ⟨-, rfl⟩ := allocate_eq hnew
      obtain ⟨rows, rfl⟩ := growCopyRows_eq _ hcopied
      rfl
    subst hcapacity
    exact ⟨hstore, htable⟩
  · rintro ⟨hstore, htable⟩
    obtain ⟨hgrown, -⟩ := growRowStore_grown hstore
    unfold growRowStore at hstore
    rw [bind_eq_of_eq_ok hgrown.clamped, bind_eq_of_eq_ok hgrown.grownHeap] at hstore
    obtain ⟨new, hnew, hcopied⟩ := bind_eq_ok hstore
    unfold growTdc
    rw [bind_eq_of_eq_ok hgrown.clamped, bind_eq_of_eq_ok hgrown.grownHeap, bind_eq_of_eq_ok hnew,
      bind_eq_of_eq_ok hcopied, bind_eq_of_eq_ok htable]
    rfl

end Copy

/-! ## The new directory -/

section Directory

variable {layout : AggregateLayout} {aht aht' : AggregateHashTable} {t t' : TupleDataCollection}
  {rows : List (StoredRow layout)} {groups : List (List Datum)}

/-- A turn of the rehash finds a slot where one is free. -/
theorem rehashRow_of_room (hrows : HoldsRows layout t rows) (h : Indexes aht groups)
    {row : StoredRow layout} (hrow : rows[groups.length]? = some row) (hnew : row.1 ∉ groups)
    (hroom : groups.length < aht.capacity) :
    ∃ aht', rehashRow layout t aht groups.length = .ok aht' := by
  have hhash := (hrows.row _ _ hrow).hash
  have hends := @probe_ends aht groups h row.1 (fun _ => false) fun i _ =>
    ⟨fun hfalse => absurd hfalse Bool.false_ne_true,
      fun hi => absurd (List.mem_of_getElem? hi) hnew⟩
  have hfull := hends.ne_full h hroom
  unfold rehashRow
  rw [hhash]
  dsimp only
  generalize aht.probe (hashColumns row.1) (fun _ => false) = outcome at hends hfull
  cases hends with
  | found hi => exact absurd (List.mem_of_getElem? hi) hnew
  | empty hempty hpassed => exact ⟨_, rfl⟩
  | full hpassed => exact absurd rfl hfull

/-- **A rehash succeeds** where the directory has a slot for every row. -/
theorem rehash_of_fits (hrows : HoldsRows layout t rows) (hnodup : (rows.map Prod.fst).Nodup)
    (hfits : rows.length ≤ aht.capacity) : ∃ aht', rehash layout aht t = .ok aht' := by
  unfold rehash
  rw [hrows.rowCount]
  have hall : ∀ n ≤ rows.length, ∃ aht',
      (List.range n).foldlM (rehashRow layout t) { aht with entries := fun _ => none } =
        .ok aht' := by
    intro n
    induction n with
    | zero => exact fun _ => ⟨_, rfl⟩
    | succ n ih =>
      intro hn
      obtain ⟨mid, hmid⟩ := ih (by omega)
      obtain ⟨hindexes, hcapacity⟩ := rehashRows_indexes hrows hnodup (by omega) hmid
      have hlength : ((rows.take n).map Prod.fst).length = n := by
        rw [List.length_map, List.length_take]
        omega
      have htake : (rows.take (n + 1)).map Prod.fst =
          (rows.take n).map Prod.fst ++ [(rows.get ⟨n, hn⟩).1] := by
        rw [List.take_succ_eq_append_getElem hn, List.map_append]
        rfl
      have hdistinct := hnodup.sublist ((List.take_sublist (n + 1) rows).map Prod.fst)
      rw [htake, List.nodup_append'] at hdistinct
      have hrow : rows[((rows.take n).map Prod.fst).length]? = some (rows.get ⟨n, hn⟩) := by
        rw [hlength]
        exact List.getElem?_eq_getElem hn
      obtain ⟨aht', haht'⟩ := rehashRow_of_room hrows hindexes hrow
        (List.disjoint_singleton.1 hdistinct.2.2) (by rw [hlength, hcapacity]; exact hn.trans hfits)
      rw [hlength] at haht'
      exact ⟨aht', foldlM_range_succ_eq_ok hmid haht'⟩
  exact hall _ (Nat.le_refl _)

/-- The new row store holds the rows of the old one. -/
theorem growRowStore_holds {owner : String} {required : Nat} (h : HoldsRows layout t rows)
    (hok : growRowStore owner layout t required = .ok t') : HoldsRows layout t' rows := by
  unfold growRowStore at hok
  obtain ⟨newCapacity, -, hok⟩ := bind_eq_ok hok
  obtain ⟨heapCapacity, hheap, hok⟩ := bind_eq_ok hok
  obtain ⟨new, hnew, hok⟩ := bind_eq_ok hok
  rw [h.rowCount] at hok
  have hrows := AggregateHashTable.growCopyRows_holds h
    (allocate_holdsRows (growHeapCapacity_lt hheap) hnew) (Nat.le_refl _) hok
  rwa [List.take_length] at hrows

/-- **A row store that has grown is grown with its directory**, where that has a slot for every
row; and only there. -/
theorem Represents.growTdc_iff (h : Represents layout aht t rows) {owner : String}
    {required : Nat} (hok : growRowStore owner layout t required = .ok t') :
    (∃ aht', growTdc owner layout t required = .ok (aht', t')) ↔
      t.rowCount ≤ chooseCapacity t'.rowCapacity := by
  have hrows := growRowStore_holds h.holds hok
  have hcount := h.holds.rowCount
  constructor
  · rintro ⟨aht', hgrow⟩
    obtain ⟨-, htable⟩ := growTdc_eq_ok.1 hgrow
    obtain ⟨hindexes, hcapacity⟩ := rehash_indexes hrows h.indexes.nodup htable
    have hle := hindexes.length_le
    rw [hcapacity, List.length_map] at hle
    rw [hcount]
    exact hle
  · intro hfits
    rw [hcount] at hfits
    obtain ⟨aht', htable⟩ := @rehash_of_fits layout
      (init (chooseCapacity t'.rowCapacity) (chooseCapacity_powerOfTwo _)) t' rows hrows
      h.indexes.nodup hfits
    exact ⟨aht', growTdc_eq_ok.2 ⟨hok, htable⟩⟩

/-- **A resize succeeds**: the doubled directory has a slot for every row. -/
theorem Represents.resize_ok (h : Represents layout aht t rows) :
    ∃ aht', resizeAhtForTdc layout aht t = .ok aht' := by
  unfold resizeAhtForTdc
  split
  · exact ⟨aht, rfl⟩
  · apply rehash_of_fits h.holds h.indexes.nodup
    have hle := h.indexes.length_le
    rw [List.length_map] at hle
    show rows.length ≤ aht.capacity <<< 1
    rw [Nat.shiftLeft_eq]
    omega

end Directory
end AggregateHashTable
end PgYaap
