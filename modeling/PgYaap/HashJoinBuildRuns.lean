import Mathlib
import PgYaap.HashJoinBuildCopy
import PgYaap.InterleavedRows
import PgYaap.TupleDataCollectionGrowth

/-! # Runs of the combine event

The workers of a combine event take their steps in any order. Where they copy,
each one fills the ranges that the prepare step gave it, and when all have
finished the ranges make up the merged tables. Where they append under the lock,
the tables hold the rows appended so far. So every local row arrives exactly once,
unless string keys meet payload rows that nothing reads and that stand in the key
table: there a row is appended to that table twice. -/
namespace PgYaap
namespace HashJoinBuild
open HashJoinProbe TupleDataCollection

/-! ## What the merged tables should hold -/

namespace HashJoinBuildDesc
variable (desc : HashJoinBuildDesc)

/-- The layout of the rows in the payload table. Where it is the key table, its rows are laid out as
keys: the two layouts are equal, or the probe reads nothing but the keys. -/
def rowsLayout : TupleDataLayout :=
  if desc.buildRowsUseKeys then desc.buildKeyLayout else desc.buildLayout

/-- The payload has a merged table of its own. -/
def mergesRows : Bool := !desc.buildRowsSharedLocal && !desc.buildRowsUseKeys

end HashJoinBuildDesc

/-- The key and the payload of a row. -/
abbrev BuildRow := List Datum × List Datum

section Rows
variable (desc : HashJoinBuildDesc)

/-- The rows of the tables of a worker. -/
def localRows (t : BuildTables) : List BuildRow :=
  (List.range t.buildKeys.rowCount).map fun r =>
    (t.buildKeys.decodeRow desc.buildKeyLayout r, (t.buildRows desc).decodeRow desc.rowsLayout r)

/-- The payload that the probe finds for a row of the merged key table: in the payload table, or in
the table of the worker that the row came from. -/
def probedRow (locals : List BuildTables) (s : CombineState) (g : Nat) : Option (List Datum) :=
  if desc.buildRowsSharedLocal then
    (locals[s.buildRowSlots g]?).map fun t =>
      (t.buildRows desc).decodeRow desc.rowsLayout (s.buildRowLocalIdxs g)
  else some ((s.tables.buildRows desc).decodeRow desc.rowsLayout g)

/-- The rows of the merged tables. -/
def mergedRows (locals : List BuildTables) (s : CombineState) :
    List (List Datum × Option (List Datum)) :=
  (List.range s.tables.buildKeys.rowCount).map fun g =>
    (s.tables.buildKeys.decodeRow desc.buildKeyLayout g, probedRow desc locals s g)

/-- **The merged tables hold every local row exactly once**, and no other row. -/
structure Merged (locals : List BuildTables) (s : CombineState) : Prop where
  rows : (mergedRows desc locals s).Perm
    ((locals.flatMap (localRows desc)).map fun row => (row.1, some row.2))
  rowCount : desc.mergesRows = true →
    s.tables.ownRows.rowCount = s.tables.buildKeys.rowCount

/-- **The tables of a worker**: they start empty, and rows are sunk into them. -/
inductive Sunk : BuildTables → Prop
  | fresh {t : BuildTables} (hkeys : Holds desc.buildKeyLayout t.buildKeys [])
      (hrows : desc.buildRowsUseKeys = false → Holds desc.buildLayout t.ownRows []) : Sunk t
  | row {t t' : BuildTables} {chunk : DataChunk} {rowIdx fuel : Nat} (h : Sunk t)
      (hok : sinkRow desc chunk rowIdx fuel t = some (.ok t')) : Sunk t'

/-- Both tables hold the rows. -/
structure Whole (t : BuildTables) : Prop where
  keys : Holds desc.buildKeyLayout t.buildKeys (t.buildKeys.storedRows desc.buildKeyLayout)
  rows : Holds desc.rowsLayout (t.buildRows desc) ((t.buildRows desc).storedRows desc.rowsLayout)
  rowCount : (t.buildRows desc).rowCount = t.buildKeys.rowCount

variable {desc} {t : BuildTables}

theorem Sunk.tablesHold (h : Sunk desc t) :
    ∃ keys rows, TablesHold desc t keys rows ∧ rows.length = keys.length := by
  induction h with
  | fresh hkeys hrows => exact ⟨[], [], ⟨hkeys, hrows⟩, rfl⟩
  | row _ hok ih =>
    obtain ⟨keys, rows, hholds, hlen⟩ := ih
    refine ⟨_, _, sinkRow_holds hholds hok, ?_⟩
    rw [List.length_append, List.length_append, hlen]
    rfl

theorem Sunk.whole (h : Sunk desc t) : Whole desc t := by
  obtain ⟨keys, rows, hholds, hlen⟩ := h.tablesHold
  have hkeys := hholds.keys
  by_cases huse : desc.buildRowsUseKeys = true
  · have hrows : t.buildRows desc = t.buildKeys := if_pos huse
    have hlayout : desc.rowsLayout = desc.buildKeyLayout := if_pos huse
    refine ⟨?_, ?_, by rw [hrows]⟩
    · rw [hkeys.storedRows]
      exact hkeys
    · rw [hrows, hlayout, hkeys.storedRows]
      exact hkeys
  · have hrows : t.buildRows desc = t.ownRows := if_neg huse
    have hlayout : desc.rowsLayout = desc.buildLayout := if_neg huse
    have hown := hholds.rows (Bool.not_eq_true _ ▸ huse)
    refine ⟨?_, ?_, ?_⟩
    · rw [hkeys.storedRows]
      exact hkeys
    · rw [hrows, hlayout, hown.storedRows]
      exact hown
    · rw [hrows, hown.rowCount, hkeys.rowCount, hlen]

theorem length_localRows : (localRows desc t).length = t.buildKeys.rowCount := by
  rw [localRows, List.length_map, List.length_range]

theorem getElem?_localRows {i : Nat} {row : BuildRow} (h : (localRows desc t)[i]? = some row) :
    i < t.buildKeys.rowCount ∧ row = (t.buildKeys.decodeRow desc.buildKeyLayout i,
      (t.buildRows desc).decodeRow desc.rowsLayout i) := by
  have hlt : i < t.buildKeys.rowCount := by
    have hlen := (List.getElem?_eq_some_iff.1 h).1
    rwa [length_localRows] at hlen
  rw [localRows, List.getElem?_map, List.getElem?_range hlt] at h
  exact ⟨hlt, (Option.some.inj h).symm⟩

/-- The merged tables, read row by row. -/
theorem mergedRows_eq {locals : List BuildTables} {s : CombineState} {rows : List BuildRow}
    (hcount : s.tables.buildKeys.rowCount = rows.length)
    (hrow : ∀ g row, rows[g]? = some row →
      s.tables.buildKeys.decodeRow desc.buildKeyLayout g = row.1 ∧
        probedRow desc locals s g = some row.2) :
    mergedRows desc locals s = rows.map fun row => (row.1, some row.2) := by
  refine List.ext_getElem (by rw [mergedRows, List.length_map, List.length_map, List.length_range,
    hcount]) fun g hg hg' => ?_
  rw [List.length_map] at hg'
  obtain ⟨hkey, hprobed⟩ := hrow g rows[g] (List.getElem?_eq_getElem hg')
  simp only [mergedRows, List.getElem_map, List.getElem_range]
  rw [hkey, hprobed]

end Rows

/-! ## Ranges one after the other -/

section Ranges

/-- Where the part of a table begins. -/
def startOf (size : TupleDataCollection → Nat) (tables : List TupleDataCollection) (w : Nat) : Nat :=
  ((tables.take w).map size).sum

variable {size : TupleDataCollection → Nat} {tables : List TupleDataCollection}
  {src : TupleDataCollection} {v w : Nat}

theorem startOf_succ (h : tables[w]? = some src) :
    startOf size tables (w + 1) = startOf size tables w + size src := by
  rw [startOf, List.take_add_one, h, List.map_append, List.sum_append]
  rfl

theorem startOf_mono (h : v ≤ w) : startOf size tables v ≤ startOf size tables w := by
  induction h with
  | refl => exact Nat.le_refl _
  | @step w _ ih =>
    refine ih.trans ?_
    cases hw : tables[w]? with
    | some src =>
      rw [startOf_succ hw]
      exact Nat.le_add_right _ _
    | none =>
      rw [startOf, startOf, List.take_add_one, hw]
      simp

theorem startOf_add_le (h : tables[v]? = some src) (hlt : v < w) :
    startOf size tables v + size src ≤ startOf size tables w := by
  rw [← startOf_succ h]
  exact startOf_mono hlt

/-- An element of lists put one after the other lies in one of them. -/
theorem getElem?_flatMap {α β : Type} {l : List α} {f : α → List β} {r : Nat} {b : β}
    (h : (l.flatMap f)[r]? = some b) :
    ∃ w a i, l[w]? = some a ∧ (f a)[i]? = some b ∧
      r = ((l.take w).map fun a => (f a).length).sum + i := by
  induction l generalizing r with
  | nil => cases h
  | cons a l ih =>
    rw [List.flatMap_cons] at h
    rcases Nat.lt_or_ge r (f a).length with hlt | hge
    · rw [List.getElem?_append_left hlt] at h
      exact ⟨0, a, r, rfl, h, (Nat.zero_add r).symm⟩
    · rw [List.getElem?_append_right hge] at h
      obtain ⟨w, a', i, ha', hi, hr⟩ := ih h
      refine ⟨w + 1, a', i, ha', hi, ?_⟩
      rw [List.take_succ_cons, List.map_cons, List.sum_cons]
      omega

theorem getElem?_storedRows {layout : TupleDataLayout} {t : TupleDataCollection} {i : Nat}
    (h : i < t.rowCount) : (t.storedRows layout)[i]? = some (t.decodeRow layout i) := by
  rw [TupleDataCollection.storedRows, List.getElem?_map, List.getElem?_range h]
  rfl

theorem startOf_add_le_sum (h : tables[w]? = some src) :
    startOf size tables w + size src ≤ (tables.map size).sum := by
  have hlt : w < tables.length := (List.getElem?_eq_some_iff.1 h).1
  have hle := @startOf_add_le size tables src w tables.length h hlt
  rw [startOf, startOf, List.take_length] at hle
  exact hle

/-- **The ranges of the workers that are done** hold their rows. -/
structure RangesAt (layout : TupleDataLayout) (tables : List TupleDataCollection)
    (done : Nat → Bool) (t : TupleDataCollection) : Prop where
  rowWidth : t.rowWidth = layout.rowWidth
  rows_le : (tables.map rowCount).sum ≤ t.rowCapacity
  heap_le : (tables.map heapUsed).sum ≤ t.heapCapacity
  heap_lt : t.heapCapacity < 2 ^ 32
  row : ∀ w src, tables[w]? = some src → done w = true →
    ∀ i values, (src.storedRows layout)[i]? = some values →
      RowAt layout t (startOf rowCount tables w + i) values (startOf heapUsed tables w)
        (startOf heapUsed tables w + src.heapUsed)

variable {layout : TupleDataLayout} {done : Nat → Bool} {t t' : TupleDataCollection}

/-- **One more range**: the others are apart from it. -/
theorem RangesAt.copied (h : RangesAt layout tables done t) (hsrc : tables[w]? = some src)
    (hcopied : CopiedInto layout src (src.storedRows layout) t t' (startOf rowCount tables w)
      (startOf heapUsed tables w)) :
    RangesAt layout tables (Function.update done w true) t' := by
  have hshape := hcopied.shape
  have hwidth : t'.rowWidth = t.rowWidth := by rw [hshape]
  have hcapacity : t'.rowCapacity = t.rowCapacity := by rw [hshape]
  have hheapCapacity : t'.heapCapacity = t.heapCapacity := by rw [hshape]
  refine ⟨hwidth.trans h.rowWidth, hcapacity ▸ h.rows_le, hheapCapacity ▸ h.heap_le,
    hheapCapacity ▸ h.heap_lt, ?_⟩
  intro v other hother hdone i values hi
  by_cases hv : v = w
  · subst hv
    obtain rfl := Option.some.inj (hother.symm.trans hsrc)
    exact hcopied.row i values hi
  rw [Function.update_of_ne hv] at hdone
  have hcount : i < other.rowCount := by
    have hlen := (List.getElem?_eq_some_iff.1 hi).1
    rwa [TupleDataCollection.storedRows, List.length_map, List.length_range] at hlen
  have hrows := @startOf_add_le_sum rowCount tables other v hother
  have hrowsW := @startOf_add_le_sum rowCount tables src w hsrc
  have hfit := h.rows_le
  have hbelow : t.getRow (startOf rowCount tables v + i) + t.rowWidth ≤ t.heap :=
    getRow_le_heap (by omega)
  have hbelowW : t.getRow (startOf rowCount tables w + src.rowCount) ≤ t.heap :=
    Nat.mul_le_mul_right _ (by omega)
  rw [h.rowWidth] at hbelow
  refine (h.row v other hother hdone i values hi).frame hwidth hcapacity (fun a ha hb => ?_)
    (fun a ha hb => ?_)
  · refine hcopied.same a ?_ (Or.inl (by omega))
    rcases Nat.lt_or_gt_of_ne hv with hlt | hgt
    · have hrange := @startOf_add_le rowCount tables other v w hother hlt
      have hbefore : t.getRow (startOf rowCount tables v + i) + t.rowWidth ≤
          t.getRow (startOf rowCount tables w) := getRow_le (by omega)
      rw [h.rowWidth] at hbefore
      exact Or.inl (by omega)
    · have hrange := @startOf_add_le rowCount tables src w v hsrc hgt
      have hafter : t.getRow (startOf rowCount tables w + src.rowCount) ≤
          t.getRow (startOf rowCount tables v + i) := Nat.mul_le_mul_right _ (by omega)
      exact Or.inr (by omega)
  · refine hcopied.same a (Or.inr (by omega)) ?_
    rcases Nat.lt_or_gt_of_ne hv with hlt | hgt
    · have hrange := @startOf_add_le heapUsed tables other v w hother hlt
      exact Or.inl (by omega)
    · have hrange := @startOf_add_le heapUsed tables src w v hsrc hgt
      exact Or.inr (by omega)

end Ranges

/-! ## Copying -/

section Copy
variable {desc : HashJoinBuildDesc} {locals : List BuildTables} {s s' : CombineState}
  {layout : TupleDataLayout} {t t' : TupleDataCollection} {src : BuildTables} {w : Nat}

/-- The key tables, and the payload tables, of the workers. -/
abbrev keyTables (locals : List BuildTables) : List TupleDataCollection :=
  locals.map BuildTables.buildKeys

abbrev rowTables (desc : HashJoinBuildDesc) (locals : List BuildTables) :
    List TupleDataCollection :=
  locals.map (BuildTables.buildRows desc)

theorem prepareRegistry_totals (total : Totals) :
    (prepareRegistry desc locals total).2 =
      ⟨total.rows + ((keyTables locals).map rowCount).sum,
        total.keyHeap + ((keyTables locals).map heapUsed).sum,
        total.rowHeap + ((rowTables desc locals).map heapUsed).sum⟩ := by
  induction locals generalizing total with
  | nil => rfl
  | cons t ts ih =>
    rw [prepareRegistry]
    dsimp only
    rw [ih]
    simp [Nat.add_assoc]

/-- The payload tables have as many rows as the key tables. -/
theorem map_rowCount (hwhole : ∀ t ∈ locals, Whole desc t) :
    (rowTables desc locals).map rowCount = (keyTables locals).map rowCount := by
  rw [List.map_map, List.map_map]
  exact List.map_congr_left fun t ht => (hwhole t ht).rowCount

theorem startOf_rowTables (hwhole : ∀ t ∈ locals, Whole desc t) (w : Nat) :
    startOf rowCount (rowTables desc locals) w = startOf rowCount (keyTables locals) w := by
  rw [startOf, List.map_take, map_rowCount hwhole, ← List.map_take]
  rfl

/-- The entry of a worker: its counts, and where its ranges begin. -/
theorem prepareRegistry_getElem? (total : Totals) (hsrc : locals[w]? = some src) :
    (prepareRegistry desc locals total).1[w]? = some
      { rowCount := src.buildKeys.rowCount
        keyHeapUsed := src.buildKeys.heapUsed
        rowHeapUsed := (src.buildRows desc).heapUsed
        globalRowOffset := (total.rows + startOf rowCount (keyTables locals) w) % 2 ^ 32
        globalKeyHeapOffset := (total.keyHeap + startOf heapUsed (keyTables locals) w) % 2 ^ 32
        globalRowHeapOffset :=
          (total.rowHeap + startOf heapUsed (rowTables desc locals) w) % 2 ^ 32 } := by
  induction locals generalizing total w with
  | nil => cases hsrc
  | cons t ts ih =>
    rw [prepareRegistry]
    dsimp only
    cases w with
    | zero =>
      obtain rfl := Option.some.inj hsrc
      rfl
    | succ w =>
      rw [List.getElem?_cons_succ, ih _ hsrc]
      simp [startOf, Nat.add_assoc]

/-- **A table that is prepared has room** for the rows and the heap of all workers. -/
theorem ensureEmptyJoinGlobalCapacity_room {targetRows targetHeapUsed : Nat}
    (ht : Holds layout t [])
    (h : ensureEmptyJoinGlobalCapacity layout t targetRows targetHeapUsed = .ok t') :
    t'.rowWidth = layout.rowWidth ∧ targetRows ≤ t'.rowCapacity ∧
      targetHeapUsed ≤ t'.heapCapacity ∧ t'.heapCapacity < 2 ^ 32 := by
  unfold ensureEmptyJoinGlobalCapacity at h
  split at h
  · next hroom =>
    obtain rfl := Except.ok.inj h
    exact ⟨ht.rowWidth, hroom.1, hroom.2, ht.heap_lt⟩
  · split at h
    · cases h
    · obtain ⟨newRowCapacity, hclamp, h⟩ := bind_eq_ok h
      obtain ⟨newHeapCapacity, hlt, h⟩ : ∃ newHeapCapacity < 2 ^ 32,
          (if newHeapCapacity < targetHeapUsed then
            .error "pg_yaap: hash join combine prepare failed to size string heap"
          else allocate newRowCapacity layout.rowWidth newHeapCapacity) = .ok t' := by
        split at h
        · obtain ⟨newHeapCapacity, hgrow, h⟩ := bind_eq_ok h
          exact ⟨newHeapCapacity, growHeapCapacity_lt hgrow, h⟩
        · exact ⟨t.heapCapacity, ht.heap_lt, h⟩
      split at h
      · cases h
      · next hheap =>
        obtain ⟨-, -, hrows, rfl⟩ := clampRowCapacity_eq_ok.1 hclamp
        obtain ⟨hempty, hrowCapacity, hheapCapacity, -⟩ := allocate_holds hlt h
        refine ⟨hempty.rowWidth, ?_, by omega, by omega⟩
        rw [hrowCapacity]
        omega

/-- A table that is prepared holds the ranges of no worker. -/
theorem rangesAt_prepared {tables : List TupleDataCollection} {done : Nat → Bool}
    (hnone : ∀ w, done w = false) (ht : Holds layout t [])
    (h : ensureEmptyJoinGlobalCapacity layout t (tables.map rowCount).sum
      (tables.map heapUsed).sum = .ok t') : RangesAt layout tables done t' := by
  obtain ⟨hwidth, hrows, hheap, hlt⟩ := ensureEmptyJoinGlobalCapacity_room ht h
  refine ⟨hwidth, hrows, hheap, hlt, fun w _ _ hw => ?_⟩
  rw [hnone] at hw
  cases hw

/-- **What holds once the event is prepared.** -/
structure Prepared (desc : HashJoinBuildDesc) (locals : List BuildTables) (s : CombineState) :
    Prop where
  registry : s.registry = some (prepareRegistry desc locals ⟨0, 0, 0⟩).1
  rows_le : ((keyTables locals).map rowCount).sum ≤ uint32Max
  keyHeap_le : ((keyTables locals).map heapUsed).sum ≤ uint32Max
  rowHeap_le : ((rowTables desc locals).map heapUsed).sum ≤ uint32Max
  combinedRows : s.combinedRowCount = ((keyTables locals).map rowCount).sum
  combinedKeyHeap : s.combinedKeyHeapUsed = ((keyTables locals).map heapUsed).sum
  combinedRowHeap : desc.buildRowsUseKeys = false →
    s.combinedRowHeapUsed = ((rowTables desc locals).map heapUsed).sum
  keys : RangesAt desc.buildKeyLayout (keyTables locals) s.finished s.tables.buildKeys
  rows : desc.mergesRows = true →
    RangesAt desc.buildLayout (rowTables desc locals) s.finished s.tables.ownRows
  slots : desc.buildRowsSharedLocal = true → ∀ w src, locals[w]? = some src →
    s.finished w = true → ∀ i < src.buildKeys.rowCount,
      s.buildRowSlots (startOf rowCount (keyTables locals) w + i) = w ∧
        s.buildRowLocalIdxs (startOf rowCount (keyTables locals) w + i) = i

/-- **The copy invariant.** -/
structure CopyInv (desc : HashJoinBuildDesc) (locals : List BuildTables) (s : CombineState) :
    Prop where
  before : s.registry = none → (∀ w, s.finished w = false) ∧
    Holds desc.buildKeyLayout s.tables.buildKeys [] ∧ Holds desc.buildLayout s.tables.ownRows []
  prepared : s.registry ≠ none → Prepared desc locals s

theorem copyInv_initial (h : IsInitial desc s) : CopyInv desc locals s :=
  ⟨fun _ => ⟨h.2.2.2.2, h.1, h.2.1⟩, fun hsome => absurd h.2.2.1 hsome⟩

/-- **`PrepareHashJoinCombine`.** -/
theorem CopyInv.prepareHashJoinCombine (hwhole : ∀ t ∈ locals, Whole desc t)
    (h : CopyInv desc locals s)
    (hok : HashJoinBuild.prepareHashJoinCombine desc locals s = .ok s') :
    Prepared desc locals s' ∧ s'.finished = s.finished := by
  unfold HashJoinBuild.prepareHashJoinCombine at hok
  split at hok
  · next hsome =>
    obtain rfl := Except.ok.inj hok
    refine ⟨h.prepared fun hnone => ?_, rfl⟩
    rw [hnone] at hsome
    cases hsome
  · next hnone =>
    obtain ⟨hfinished, hkeys, hrows⟩ := h.before (Option.not_isSome_iff_eq_none.1 hnone)
    have htotals := @prepareRegistry_totals desc locals ⟨0, 0, 0⟩
    simp only [Nat.zero_add] at htotals
    dsimp only at hok
    rw [htotals] at hok
    split at hok
    · cases hok
    · next hfits =>
      simp only [not_or, Nat.not_lt] at hfits
      obtain ⟨keys, hkeysOk, hok⟩ := bind_eq_ok hok
      obtain ⟨rows, hrowsOk, hok⟩ : ∃ rows, (desc.mergesRows = true →
          ensureEmptyJoinGlobalCapacity desc.buildLayout s.tables.ownRows
            ((keyTables locals).map rowCount).sum ((rowTables desc locals).map heapUsed).sum =
              .ok rows) ∧ _ = Except.ok s' := by
        split at hok
        · obtain ⟨rows, hrowsOk, hok⟩ := bind_eq_ok hok
          exact ⟨rows, fun _ => hrowsOk, hok⟩
        · next hshared => exact ⟨s.tables.ownRows, fun hmerges => absurd hmerges hshared, hok⟩
      obtain rfl := Except.ok.inj hok
      refine ⟨?_, rfl⟩
      exact {
        registry := rfl
        rows_le := hfits.1
        keyHeap_le := hfits.2.1
        rowHeap_le := hfits.2.2
        combinedRows := rfl
        combinedKeyHeap := rfl
        combinedRowHeap := fun huse => if_neg (by rw [huse]; decide)
        keys := rangesAt_prepared hfinished hkeys hkeysOk
        rows := by
          intro hmerges
          have hprepare := hrowsOk hmerges
          rw [← map_rowCount hwhole] at hprepare
          exact rangesAt_prepared hfinished hrows hprepare
        slots := fun _ w _ _ hw => by
          have hfalse := (hfinished w).symm.trans hw
          cases hfalse }

/-- The entry that a worker finds, once the event is prepared. -/
theorem Prepared.entry (h : Prepared desc locals s) (hsrc : locals[w]? = some src) :
    s.registry.bind (·[w]?) = some
      { rowCount := src.buildKeys.rowCount
        keyHeapUsed := src.buildKeys.heapUsed
        rowHeapUsed := (src.buildRows desc).heapUsed
        globalRowOffset := startOf rowCount (keyTables locals) w
        globalKeyHeapOffset := startOf heapUsed (keyTables locals) w
        globalRowHeapOffset := startOf heapUsed (rowTables desc locals) w } := by
  have hkey : (keyTables locals)[w]? = some src.buildKeys := by rw [List.getElem?_map, hsrc]; rfl
  have hrow : (rowTables desc locals)[w]? = some (src.buildRows desc) := by
    rw [List.getElem?_map, hsrc]
    rfl
  have hrows := @startOf_add_le_sum rowCount _ _ w hkey
  have hkeyHeap := @startOf_add_le_sum heapUsed _ _ w hkey
  have hrowHeap := @startOf_add_le_sum heapUsed _ _ w hrow
  have hmax : uint32Max < 2 ^ 32 := by decide
  have hrowsLe := h.rows_le
  have hkeyLe := h.keyHeap_le
  have hrowLe := h.rowHeap_le
  rw [h.registry, Option.bind_some, prepareRegistry_getElem? _ hsrc]
  simp only [Nat.zero_add]
  rw [Nat.mod_eq_of_lt (by omega), Nat.mod_eq_of_lt (by omega), Nat.mod_eq_of_lt (by omega)]

/-- The key table of a worker, copied to its ranges. -/
theorem Prepared.copyKeys (hwhole : ∀ t ∈ locals, Whole desc t) (h : Prepared desc locals s)
    (hsrc : locals[w]? = some src) :
    RangesAt desc.buildKeyLayout (keyTables locals) (Function.update s.finished w true)
      (copyLocalTdcIntoGlobal desc.buildKeyLayout src.buildKeys s.tables.buildKeys
        (startOf rowCount (keyTables locals) w) (startOf heapUsed (keyTables locals) w)) := by
  have hkey : (keyTables locals)[w]? = some src.buildKeys := by rw [List.getElem?_map, hsrc]; rfl
  have hrows := @startOf_add_le_sum rowCount _ _ w hkey
  have hheap := @startOf_add_le_sum heapUsed _ _ w hkey
  have hkeys := (hwhole src (List.mem_of_getElem? hsrc)).keys
  exact h.keys.copied hkey (copyLocalTdcIntoGlobal_copied hkeys h.keys.rowWidth
    (hrows.trans h.keys.rows_le) (hheap.trans h.keys.heap_le) h.keys.heap_lt)

/-- The payload table of a worker, copied to its ranges. -/
theorem Prepared.copyRows (hwhole : ∀ t ∈ locals, Whole desc t) (h : Prepared desc locals s)
    (hmerges : desc.mergesRows = true) (hsrc : locals[w]? = some src) :
    RangesAt desc.buildLayout (rowTables desc locals) (Function.update s.finished w true)
      (copyLocalTdcIntoGlobal desc.buildLayout (src.buildRows desc) s.tables.ownRows
        (startOf rowCount (keyTables locals) w) (startOf heapUsed (rowTables desc locals) w)) := by
  have hrow : (rowTables desc locals)[w]? = some (src.buildRows desc) := by
    rw [List.getElem?_map, hsrc]
    rfl
  have hrows := @startOf_add_le_sum rowCount _ _ w hrow
  have hheap := @startOf_add_le_sum heapUsed _ _ w hrow
  have hranges := h.rows hmerges
  have huse : desc.buildRowsUseKeys = false := by
    have hboth := hmerges
    rw [HashJoinBuildDesc.mergesRows, Bool.and_eq_true, Bool.not_eq_true'] at hboth
    simpa using hboth.2
  have hholds := (hwhole src (List.mem_of_getElem? hsrc)).rows
  rw [HashJoinBuildDesc.rowsLayout, huse, if_neg Bool.false_ne_true] at hholds
  rw [← startOf_rowTables hwhole]
  exact hranges.copied hrow (copyLocalTdcIntoGlobal_copied hholds hranges.rowWidth
    (hrows.trans hranges.rows_le) (hheap.trans hranges.heap_le) hranges.heap_lt)

/-- **One worker copies.** -/
theorem CopyInv.execute (hwhole : ∀ t ∈ locals, Whole desc t) (h : CopyInv desc locals s)
    (hsrc : locals[w]? = some src)
    (hok : executeHashJoinCombine desc locals w s = .ok s') : CopyInv desc locals s' := by
  unfold executeHashJoinCombine at hok
  obtain ⟨mid, hmid, hok⟩ := bind_eq_ok hok
  obtain ⟨hprepared, -⟩ := h.prepareHashJoinCombine hwhole hmid
  have hkeys := hprepared.copyKeys hwhole hsrc
  rw [hprepared.entry hsrc, hsrc] at hok
  dsimp only at hok
  suffices hnext : Prepared desc locals s' by
    refine ⟨fun hnone => ?_, fun _ => hnext⟩
    rw [hnext.registry] at hnone
    cases hnone
  split at hok
  · next hshared =>
    obtain rfl := Except.ok.inj hok
    refine { hprepared with keys := hkeys, rows := fun hmerges => ?_, slots := ?_ }
    · rw [HashJoinBuildDesc.mergesRows, hshared] at hmerges
      cases hmerges
    · intro _ v other hother hdone i hi
      dsimp only
      by_cases hv : v = w
      · subst hv
        obtain rfl := Option.some.inj (hother.symm.trans hsrc)
        rw [if_pos ⟨Nat.le_add_right _ _, Nat.add_lt_add_left hi _⟩,
          if_pos ⟨Nat.le_add_right _ _, Nat.add_lt_add_left hi _⟩, Nat.add_sub_cancel_left]
        exact ⟨rfl, rfl⟩
      · have hkeyV : (keyTables locals)[v]? = some other.buildKeys := by
          rw [List.getElem?_map, hother]
          rfl
        have hkeyW : (keyTables locals)[w]? = some src.buildKeys := by
          rw [List.getElem?_map, hsrc]
          rfl
        have hapart : ¬ (startOf rowCount (keyTables locals) w ≤
              startOf rowCount (keyTables locals) v + i ∧
            startOf rowCount (keyTables locals) v + i <
              startOf rowCount (keyTables locals) w + src.buildKeys.rowCount) := by
          rcases Nat.lt_or_gt_of_ne hv with hlt | hgt
          · have hrange := @startOf_add_le rowCount _ _ v w hkeyV hlt
            omega
          · have hrange := @startOf_add_le rowCount _ _ w v hkeyW hgt
            omega
        rw [if_neg hapart, if_neg hapart]
        have hbefore : Function.update mid.finished w true v = true := hdone
        rw [Function.update_of_ne hv] at hbefore
        exact hprepared.slots hshared v other hother hbefore i hi
  · next hshared =>
    have hnever : desc.buildRowsSharedLocal = true → False := hshared
    split at hok
    · next huse =>
      obtain rfl := Except.ok.inj hok
      refine { hprepared with
        keys := hkeys
        rows := fun hmerges => ?_
        slots := fun h => absurd h hnever }
      rw [HashJoinBuildDesc.mergesRows, huse, Bool.not_true, Bool.and_false] at hmerges
      cases hmerges
    · next huse =>
      have hmerges : desc.mergesRows = true := by
        rw [Bool.not_eq_true] at hshared huse
        rw [HashJoinBuildDesc.mergesRows, hshared, huse]
        rfl
      have hrows := hprepared.copyRows hwhole hmerges hsrc
      obtain rfl := Except.ok.inj hok
      exact { hprepared with
        keys := hkeys
        rows := fun _ => hrows
        slots := fun h => absurd h hnever }

/-- The rows of the workers, one after the other, and where they lie. -/
theorem getElem?_locals {g : Nat} {row : BuildRow}
    (h : (locals.flatMap (localRows desc))[g]? = some row) :
    ∃ w src i, locals[w]? = some src ∧ i < src.buildKeys.rowCount ∧
      row = (src.buildKeys.decodeRow desc.buildKeyLayout i,
        (src.buildRows desc).decodeRow desc.rowsLayout i) ∧
      g = startOf rowCount (keyTables locals) w + i := by
  obtain ⟨w, src, i, hsrc, hi, hg⟩ := getElem?_flatMap h
  obtain ⟨hlt, hrow⟩ := getElem?_localRows hi
  refine ⟨w, src, i, hsrc, hlt, hrow, ?_⟩
  rw [hg, startOf, ← List.map_take, List.map_map]
  congr 3
  exact funext fun t => length_localRows

theorem length_locals :
    (locals.flatMap (localRows desc)).length = ((keyTables locals).map rowCount).sum := by
  rw [List.length_flatMap, List.map_map]
  congr 2
  exact funext fun t => length_localRows

/-- **All workers have copied**: the published tables are the rows of the workers, one after the
other. -/
theorem CopyInv.merged (hwhole : ∀ t ∈ locals, Whole desc t) (h : CopyInv desc locals s)
    (hfinished : ∀ w < locals.length, s.finished w = true) :
    Merged desc locals (publishHashJoinCombinedRows desc s) := by
  unfold publishHashJoinCombinedRows
  by_cases hregistry : s.registry = none
  · -- no worker has begun, so there is none
    obtain ⟨hunfinished, hkeys, hrows⟩ := h.before hregistry
    have hnil : locals = [] := by
      cases locals with
      | nil => rfl
      | cons t locals =>
        have hfalse := (hunfinished 0).symm.trans (hfinished 0 (Nat.succ_pos _))
        cases hfalse
    subst hnil
    rw [if_neg (by rw [hregistry]; decide)]
    refine ⟨?_, fun _ => hrows.rowCount.trans hkeys.rowCount.symm⟩
    rw [mergedRows, hkeys.rowCount]
    exact List.Perm.nil
  · have hprepared := h.prepared hregistry
    rw [if_pos (Option.isSome_iff_ne_none.2 hregistry)]
    refine ⟨List.Perm.of_eq (mergedRows_eq ?_ ?_), fun hmerges => ?_⟩
    · exact hprepared.combinedRows.trans length_locals.symm
    · intro g row hrow
      obtain ⟨w, src, i, hsrc, hi, rfl, rfl⟩ := getElem?_locals hrow
      have hdone := hfinished w (List.getElem?_eq_some_iff.1 hsrc).1
      have hkey : (keyTables locals)[w]? = some src.buildKeys := by
        rw [List.getElem?_map, hsrc]
        rfl
      have hkeyRow := (hprepared.keys.row w _ hkey hdone i _ (getElem?_storedRows hi)).decodeRow
      refine ⟨hkeyRow, ?_⟩
      rw [probedRow]
      by_cases hshared : desc.buildRowsSharedLocal = true
      · obtain ⟨hslot, hidx⟩ := hprepared.slots hshared w src hsrc hdone i hi
        rw [if_pos hshared]
        dsimp only
        rw [hslot, hidx, hsrc]
        rfl
      · rw [if_neg hshared]
        refine congrArg some ?_
        by_cases huse : desc.buildRowsUseKeys = true
        · unfold BuildTables.buildRows HashJoinBuildDesc.rowsLayout
          rw [if_pos huse, if_pos huse, if_pos huse]
          exact hkeyRow
        · have hmerges : (!desc.buildRowsSharedLocal && !desc.buildRowsUseKeys) = true := by
            rw [Bool.not_eq_true] at hshared huse
            rw [hshared, huse]
            rfl
          have hown : ∀ t : BuildTables, t.buildRows desc = t.ownRows := fun t => if_neg huse
          have hranges := hprepared.rows hmerges
          have hrowTable : (rowTables desc locals)[w]? = some (src.buildRows desc) := by
            rw [List.getElem?_map, hsrc]
            rfl
          have hcount : i < (src.buildRows desc).rowCount := by
            rw [(hwhole src (List.mem_of_getElem? hsrc)).rowCount]
            exact hi
          have hrowRow := (hranges.row w _ hrowTable hdone i _
            (getElem?_storedRows hcount)).decodeRow
          rw [startOf_rowTables hwhole, hown] at hrowRow
          rw [hown, hown, HashJoinBuildDesc.rowsLayout, if_neg huse, if_pos hmerges]
          exact hrowRow
    · rw [HashJoinBuildDesc.mergesRows] at hmerges
      rw [if_pos hmerges]

end Copy

/-! ## Appending under the lock -/

section Locked
variable {desc : HashJoinBuildDesc} {locals : List BuildTables} {s s' : CombineState}
  {P : List BuildRow → BuildTables → Prop} {order : List (Nat × Nat)} {src t t' : BuildTables}
  {fuel w : Nat}

/-- What growing and appending keep: `P rows t` says what the tables have of the rows appended. -/
structure Appends (desc : HashJoinBuildDesc) (P : List BuildRow → BuildTables → Prop) : Prop where
  grow : ∀ rows t t' src rowIdx, P rows t → growGlobal desc src rowIdx t = .ok t' → P rows t'
  append : ∀ rows t t' src rowIdx, P rows t → appendBuildRow desc src rowIdx t = .ok t' →
    P (rows ++ [(src.buildKeys.decodeRow desc.buildKeyLayout rowIdx,
      (src.buildRows desc).decodeRow desc.rowsLayout rowIdx)]) t'

theorem Appends.ensureJoinGlobalCapacity (hP : Appends desc P) {rows : List BuildRow}
    {rowIdx : Nat} (h : P rows t)
    (hok : HashJoinBuild.ensureJoinGlobalCapacity desc src rowIdx fuel t = some (.ok t')) :
    P rows t' := by
  induction fuel generalizing t with
  | zero => cases hok
  | succ fuel ih =>
    rw [HashJoinBuild.ensureJoinGlobalCapacity] at hok
    split at hok
    · split at hok
      · cases hok
      · next mid hgrow => exact ih (hP.grow _ _ _ _ _ h hgrow) hok
    · obtain rfl := Except.ok.inj (Option.some.inj hok)
      exact h

/-- **The rows of a batch.** The induction is on the rows that are left. -/
theorem Appends.combineRows (hP : Appends desc P) (hsrc : locals[w]? = some src) (k : Nat) :
    ∀ rowIdx order t, Interleaving (locals.map (localRows desc)) order →
      (∀ i, (w, i) ∈ order ↔ i < rowIdx) →
      P (namedRows (locals.map (localRows desc)) order) t →
      rowIdx + k ≤ src.buildKeys.rowCount →
      HashJoinBuild.combineRows desc src fuel k rowIdx t = some (.ok t') →
      ∃ order', Interleaving (locals.map (localRows desc)) order' ∧
        P (namedRows (locals.map (localRows desc)) order') t' ∧
        (∀ i, (w, i) ∈ order' ↔ i < rowIdx + k) ∧
        ∀ v i, v ≠ w → ((v, i) ∈ order' ↔ (v, i) ∈ order) := by
  induction k with
  | zero =>
    intro rowIdx order t hinter hmem h _ hok
    obtain rfl := Except.ok.inj (Option.some.inj hok)
    exact ⟨order, hinter, h, hmem, fun _ _ _ => Iff.rfl⟩
  | succ k ih =>
    intro rowIdx order t hinter hmem h hle hok
    rw [HashJoinBuild.combineRows] at hok
    split at hok
    · cases hok
    · cases hok
    · next mid hensure =>
      split at hok
      · cases hok
      · next next happend =>
        have hnext := hP.append _ _ _ _ _ (hP.ensureJoinGlobalCapacity h hensure) happend
        have hat : rowAt (locals.map (localRows desc)) (w, rowIdx) =
            some (src.buildKeys.decodeRow desc.buildKeyLayout rowIdx,
              (src.buildRows desc).decodeRow desc.rowsLayout rowIdx) := by
          show ((locals.map (localRows desc))[w]?).bind (·[rowIdx]?) = _
          rw [List.getElem?_map, hsrc]
          show (localRows desc src)[rowIdx]? = _
          rw [localRows, List.getElem?_map, List.getElem?_range (by omega)]
          rfl
        have hmiss : (w, rowIdx) ∉ order := fun hin => Nat.lt_irrefl _ ((hmem rowIdx).1 hin)
        obtain ⟨hmore, hnamed⟩ := hinter.append hmiss hat
        rw [← hnamed] at hnext
        have hmem' : ∀ i, (w, i) ∈ order ++ [(w, rowIdx)] ↔ i < rowIdx + 1 := by
          intro i
          rw [List.mem_append, hmem, List.mem_singleton, Prod.mk.injEq, and_iff_right rfl]
          omega
        obtain ⟨order', hinter', h', hdone, hothers⟩ :=
          ih (rowIdx + 1) _ next hmore hmem' hnext (by omega) hok
        refine ⟨order', hinter', h', fun i => ?_, fun v i hv => ?_⟩
        · rw [hdone i]
          omega
        · rw [hothers v i hv, List.mem_append, List.mem_singleton, Prod.mk.injEq]
          exact or_iff_left fun hsame => hv hsame.1

/-- **The invariant under the lock.** -/
structure LockedInv (desc : HashJoinBuildDesc) (P : List BuildRow → BuildTables → Prop)
    (locals : List BuildTables) (s : CombineState) (order : List (Nat × Nat)) : Prop where
  interleaving : Interleaving (locals.map (localRows desc)) order
  tables : P (namedRows (locals.map (localRows desc)) order) s.tables
  registry : s.registry = none
  appended : ∀ w i, (w, i) ∈ order ↔ i < s.rowIdx w
  finished : ∀ w src, locals[w]? = some src → s.finished w = true →
    src.buildKeys.rowCount ≤ s.rowIdx w

/-- **One batch of a worker, or its end.** -/
theorem LockedInv.step (hP : Appends desc P) (h : LockedInv desc P locals s order)
    (hsrc : locals[w]? = some src)
    (hok : combineLocked desc fuel w src s = some (.ok s')) :
    ∃ order', LockedInv desc P locals s' order' := by
  unfold combineLocked at hok
  split at hok
  · cases hok
  · split at hok
    · next hlt =>
      dsimp only at hok
      obtain ⟨r, hrows, hok⟩ := Option.map_eq_some_iff.1 hok
      cases r with
      | error e => cases hok
      | ok t' =>
        obtain rfl := Except.ok.inj hok
        obtain ⟨order', hinter, htables, hmem, hothers⟩ := hP.combineRows hsrc _ _ _ _
          h.interleaving (h.appended w) h.tables (by omega) hrows
        refine ⟨order', hinter, htables, h.registry, fun v i => ?_, fun v other hother hdone => ?_⟩
        · dsimp only
          by_cases hv : v = w
          · subst hv
            rw [Function.update_self, hmem]
            omega
          · rw [Function.update_of_ne hv, hothers v i hv, h.appended]
        · have hbefore := h.finished v other hother hdone
          dsimp only
          by_cases hv : v = w
          · subst hv
            rw [Function.update_self]
            omega
          · rw [Function.update_of_ne hv]
            exact hbefore
    · next hend =>
      obtain rfl := Except.ok.inj (Option.some.inj hok)
      refine ⟨order, h.interleaving, h.tables, h.registry, h.appended, fun v other hother hdone => ?_⟩
      by_cases hv : v = w
      · subst hv
        obtain rfl := Option.some.inj (hother.symm.trans hsrc)
        exact Nat.le_of_not_lt hend
      · have hdone' : Function.update s.finished w true v = true := hdone
        rw [Function.update_of_ne hv] at hdone'
        exact h.finished v other hother hdone'

/-- **All workers have finished**: their rows have all been appended. -/
theorem LockedInv.perm (h : LockedInv desc P locals s order)
    (hfinished : ∀ w < locals.length, s.finished w = true) :
    (namedRows (locals.map (localRows desc)) order).Perm (locals.flatMap (localRows desc)) := by
  have hall : positions (locals.map (localRows desc)) ⊆ order := by
    rintro ⟨w, i⟩ hpos
    obtain ⟨row, hrow⟩ := Option.isSome_iff_exists.1 (mem_positions.1 hpos)
    obtain ⟨rows, hrows, hi⟩ := Option.bind_eq_some_iff.1 hrow
    obtain ⟨src, hsrc, rfl⟩ := Option.map_eq_some_iff.1 ((List.getElem?_map ..).symm.trans hrows)
    have hlt := (getElem?_localRows hi).1
    have hle := h.finished w src hsrc (hfinished w (List.getElem?_eq_some_iff.1 hsrc).1)
    exact (h.appended w i).2 (Nat.lt_of_lt_of_le hlt hle)
  have hperm := h.interleaving.perm_flatten hall
  rwa [← List.flatMap_def] at hperm

/-- **Apart from the key table** the rows arrive as they are. -/
theorem appends_holds (huse : desc.buildRowsUseKeys = false) :
    Appends desc fun rows t => TablesHold desc t (rows.map Prod.fst) (rows.map Prod.snd) where
  grow := by
    intro rows t t' src rowIdx h hok
    unfold growGlobal at hok
    obtain ⟨keys, hkeys, hok⟩ := bind_eq_ok hok
    obtain ⟨own, hown, hok⟩ := bind_eq_ok hok
    obtain rfl := Except.ok.inj hok
    exact ⟨growUnless_holds h.keys hkeys, fun hnot => growUnless_holds (h.rows hnot) hown⟩
  append := by
    intro rows t t' src rowIdx h hok
    have hlayout : desc.rowsLayout = desc.buildLayout := by
      rw [HashJoinBuildDesc.rowsLayout, huse]
      rfl
    rw [List.map_append, List.map_append, hlayout]
    unfold appendBuildRow BuildTables.setBuildRows BuildTables.buildRows at hok
    simp only [huse, Bool.false_eq_true, if_false] at hok
    split at hok
    · cases hok
    · next keys dstKeyRow hkey =>
      split at hok
      · cases hok
      · next own dstRow hrow =>
        obtain ⟨keys', hkeys', hok⟩ := bind_eq_ok hok
        obtain ⟨own', hown', hok⟩ := bind_eq_ok hok
        obtain rfl := Except.ok.inj hok
        have hsrcRows : src.buildRows desc = src.ownRows := by
          rw [BuildTables.buildRows, huse]
          rfl
        rw [hsrcRows]
        exact ⟨h.keys.append_copy hkey hkeys', fun hnot => (h.rows hnot).append_copy hrow hown'⟩

/-- **In the key table** every row arrives twice. -/
theorem appends_twice (huse : desc.buildRowsUseKeys = true) :
    Appends desc fun rows t => t.buildKeys.rowCount = 2 * rows.length where
  grow := by
    intro rows t t' src rowIdx h hok
    unfold growGlobal at hok
    obtain ⟨keys, hkeys, hok⟩ := bind_eq_ok hok
    obtain ⟨own, hown, hok⟩ := bind_eq_ok hok
    obtain rfl := Except.ok.inj hok
    exact (growUnless_rowCount hkeys).trans h
  append := by
    intro rows t t' src rowIdx h hok
    unfold appendBuildRow BuildTables.setBuildRows BuildTables.buildRows at hok
    simp only [huse, if_true] at hok
    split at hok
    · cases hok
    · next keys dstKeyRow hkey =>
      split at hok
      · cases hok
      · next more dstRow hrow =>
        obtain ⟨keys', hkeys', hok⟩ := bind_eq_ok hok
        obtain ⟨own', hown', hok⟩ := bind_eq_ok hok
        obtain rfl := Except.ok.inj hok
        show own'.rowCount = _
        rw [copyBuildRow_rowCount hown', copyBuildRow_rowCount hkeys', appendRow_rowCount hrow,
          appendRow_rowCount hkey, h, List.length_append]
        rfl

/-- The tables under the lock hold the rows appended so far. -/
theorem LockedInv.merged (hkeys : desc.buildRowsUseKeys = false)
    (hshared : desc.buildRowsSharedLocal = false)
    (h : LockedInv desc (fun rows t => TablesHold desc t (rows.map Prod.fst) (rows.map Prod.snd))
      locals s order)
    (hfinished : ∀ w < locals.length, s.finished w = true) :
    Merged desc locals (publishHashJoinCombinedRows desc s) := by
  have hpublished : publishHashJoinCombinedRows desc s = s := by
    rw [publishHashJoinCombinedRows, h.registry]
    rfl
  have hlayout : desc.rowsLayout = desc.buildLayout := by
    rw [HashJoinBuildDesc.rowsLayout, hkeys]
    rfl
  rw [hpublished]
  have hrows := h.tables.rows hkeys
  have hcount : s.tables.buildKeys.rowCount =
      (namedRows (locals.map (localRows desc)) order).length := by
    rw [h.tables.keys.rowCount, List.length_map]
  refine ⟨?_, fun _ => ?_⟩
  · rw [mergedRows_eq hcount ?_]
    · exact (h.perm hfinished).map _
    · intro g row hrow
      refine ⟨?_, ?_⟩
      · exact (h.tables.keys.row g row.1 (by rw [List.getElem?_map, hrow]; rfl)).decodeRow
      · rw [probedRow, hshared, if_neg Bool.false_ne_true, BuildTables.buildRows, hkeys,
          if_neg Bool.false_ne_true, hlayout]
        exact congrArg some
          (hrows.row g row.2 (by rw [List.getElem?_map, hrow]; rfl)).decodeRow
  · rw [hrows.rowCount, h.tables.keys.rowCount, List.length_map, List.length_map]

/-- Rows that are appended twice are too many, if there are any. -/
theorem LockedInv.merged_iff_of_twice (huse : desc.buildRowsUseKeys = true)
    (h : LockedInv desc (fun rows t => t.buildKeys.rowCount = 2 * rows.length) locals s order)
    (hfinished : ∀ w < locals.length, s.finished w = true) :
    Merged desc locals (publishHashJoinCombinedRows desc s) ↔
      ¬ ∃ t ∈ locals, 0 < t.buildKeys.rowCount := by
  have hpublished : publishHashJoinCombinedRows desc s = s := by
    rw [publishHashJoinCombinedRows, h.registry]
    rfl
  have hcount : s.tables.buildKeys.rowCount = 2 * (locals.flatMap (localRows desc)).length := by
    rw [← (h.perm hfinished).length_eq]
    exact h.tables
  rw [hpublished]
  constructor
  · rintro hmerged ⟨t, ht, hpos⟩
    have hlength := hmerged.rows.length_eq
    rw [mergedRows, List.length_map, List.length_range, List.length_map, hcount] at hlength
    have hzero : locals.flatMap (localRows desc) = [] :=
      List.length_eq_zero_iff.1 (by omega)
    have hnone := List.flatMap_eq_nil_iff.1 hzero t ht
    rw [← @length_localRows desc t, hnone] at hpos
    cases hpos
  · intro hnone
    have hzero : locals.flatMap (localRows desc) = [] := by
      refine List.flatMap_eq_nil_iff.2 fun t ht => List.length_eq_zero_iff.1 ?_
      rw [length_localRows]
      exact Nat.eq_zero_of_not_pos fun hpos => hnone ⟨t, ht, hpos⟩
    rw [hzero, List.length_nil, Nat.mul_zero] at hcount
    refine ⟨?_, fun hmerges => ?_⟩
    · rw [mergedRows, hcount, hzero]
      exact List.Perm.nil
    · rw [HashJoinBuildDesc.mergesRows, huse, Bool.not_true, Bool.and_false] at hmerges
      cases hmerges

end Locked

/-! ## All workers -/

section Runs
variable {desc : HashJoinBuildDesc} {locals : List BuildTables} {s : CombineState}

/-- Rows are appended to the key table twice: the keys have strings, nothing reads the payload
rows, and there is a row. -/
def AppendsTwice (desc : HashJoinBuildDesc) (locals : List BuildTables) : Prop :=
  desc.payloadRowsUnused = true ∧ desc.buildKeyLayout.hasStringRef = true ∧
    ∃ t ∈ locals, 0 < t.buildKeys.rowCount

/-- The runs in which the workers copy. -/
theorem copyInv_of_reachable (hwhole : ∀ t ∈ locals, Whole desc t)
    (hcopy : desc.buildRowsSharedLocal = true ∨ desc.buildKeyLayout.hasStringRef = false)
    (hreach : (system desc locals).Reachable s) : CopyInv desc locals s := by
  refine hreach.invariant (I := CopyInv desc locals) (fun s hinit => copyInv_initial hinit) ?_
  rintro s w s' h ⟨-, -, fuel, hstep⟩
  unfold combine at hstep
  split at hstep
  · cases hstep
  · next src hsrc =>
    have hexecute : executeHashJoinCombine desc locals w s = .ok s' := by
      split at hstep
      · exact Option.some.inj hstep
      · next hshared =>
        have hfixed := hcopy.resolve_left hshared
        rw [hfixed, if_neg Bool.false_ne_true] at hstep
        exact Option.some.inj hstep
    exact h.execute hwhole hsrc hexecute

/-- The runs in which they append under the lock. -/
theorem lockedInv_of_reachable {P : List BuildRow → BuildTables → Prop} (hP : Appends desc P)
    (hshared : desc.buildRowsSharedLocal = false) (hstring : desc.buildKeyLayout.hasStringRef = true)
    (hinit : ∀ s, IsInitial desc s → P [] s.tables)
    (hreach : (system desc locals).Reachable s) : ∃ order, LockedInv desc P locals s order := by
  refine hreach.invariant (I := fun s => ∃ order, LockedInv desc P locals s order) ?_ ?_
  · intro s h
    obtain ⟨-, -, hregistry, hidx, hfinished⟩ := id h
    refine ⟨[], .nil _, hinit s h, hregistry, fun w i => ?_, fun w _ _ hdone => ?_⟩
    · rw [hidx]
      exact iff_of_false List.not_mem_nil (Nat.not_lt_zero i)
    · rw [hfinished] at hdone
      cases hdone
  · rintro s w s' ⟨order, h⟩ ⟨-, -, fuel, hstep⟩
    unfold combine at hstep
    split at hstep
    · cases hstep
    · next src hsrc =>
      rw [hshared, if_neg Bool.false_ne_true, if_pos hstring] at hstep
      exact h.step hP hsrc hstep

/-- **The combine event merges every local row exactly once**, whatever the layouts and the order of
the workers, unless rows are appended twice. -/
theorem merged_iff (hlocals : ∀ t ∈ locals, Sunk desc t)
    (hreach : (system desc locals).Reachable s)
    (hfinished : ∀ w < locals.length, s.finished w = true) :
    Merged desc locals (publishHashJoinCombinedRows desc s) ↔ ¬ AppendsTwice desc locals := by
  have hwhole : ∀ t ∈ locals, Whole desc t := fun t ht => (hlocals t ht).whole
  by_cases hcopy : desc.buildRowsSharedLocal = true ∨ desc.buildKeyLayout.hasStringRef = false
  · refine iff_of_true ((copyInv_of_reachable hwhole hcopy hreach).merged hwhole hfinished) ?_
    rintro ⟨hunused, hstring, -⟩
    rcases hcopy with hshared | hfixed
    · rw [HashJoinBuildDesc.buildRowsSharedLocal, hunused] at hshared
      cases hshared
    · rw [hfixed] at hstring
      cases hstring
  · obtain ⟨hshared, hstring⟩ := not_or.1 hcopy
    rw [Bool.not_eq_true] at hshared
    rw [Bool.not_eq_false] at hstring
    by_cases hunused : desc.payloadRowsUnused = true
    · have huse : desc.buildRowsUseKeys = true := by
        rw [HashJoinBuildDesc.buildRowsUseKeys, hunused, Bool.or_true]
      obtain ⟨order, h⟩ := lockedInv_of_reachable (appends_twice huse) hshared hstring
        (fun s hinit => hinit.1.rowCount) hreach
      rw [h.merged_iff_of_twice huse hfinished, AppendsTwice, and_iff_right hunused,
        and_iff_right hstring]
    · -- with equal layouts the payload has strings too, and stays in the local tables
      have huse : desc.buildRowsUseKeys = false := by
        rw [Bool.not_eq_true] at hunused
        rw [HashJoinBuildDesc.buildRowsUseKeys, hunused, Bool.or_false]
        by_contra hequal
        rw [Bool.not_eq_false] at hequal
        rw [HashJoinBuildDesc.buildRowsSharedLocal, hunused,
          ← TupleDataLayout.eq_of_layoutsEqual hequal, hstring] at hshared
        cases hshared
      obtain ⟨order, h⟩ := lockedInv_of_reachable (appends_holds huse) hshared hstring
        (fun s hinit => ⟨hinit.1, fun _ => hinit.2.1⟩) hreach
      exact iff_of_true (h.merged huse hshared hfinished) fun htwice => hunused htwice.1

theorem stringKey_placed : Placed 0 [⟨⟨.stringRef, 0⟩, 0, 25, 0⟩] 16 :=
  ⟨Nat.le_refl 0, Nat.le_refl 16⟩

theorem int4Payload_placed : Placed 0 [⟨⟨.int32, 0⟩, 0, 23, 0⟩] 8 :=
  ⟨Nat.le_refl 0, show 0 + 4 ≤ 8 by decide⟩

/-- A join on a string, with a payload of one integer. -/
def stringJoin (mode : HashJoinMatchMode) : HashJoinBuildDesc where
  joinMode := mode
  buildKeyLayout := ⟨[⟨⟨.stringRef, 0⟩, 0, 25, 0⟩], 16, stringKey_placed⟩
  buildLayout := ⟨[⟨⟨.int32, 0⟩, 0, 23, 0⟩], 8, int4Payload_placed⟩
  outputColumns := []
  nFilterInputs := 0
  nFilterExprs := 0
  nFilterSteps := 0

/-- Tables with nothing in them. -/
def emptyTables : BuildTables :=
  ⟨⟨16, 1024, 0, 98304, 0, fun _ => 0⟩, ⟨8, 1024, 0, 0, 0, fun _ => 0⟩⟩

theorem emptyTables_hold (mode : HashJoinMatchMode) :
    Holds (stringJoin mode).buildKeyLayout emptyTables.buildKeys [] ∧
      Holds (stringJoin mode).buildLayout emptyTables.ownRows [] :=
  ⟨⟨rfl, rfl, Nat.zero_le _, Nat.zero_le _, by decide, fun _ _ hr => by cases hr⟩,
    ⟨rfl, rfl, Nat.zero_le _, Nat.zero_le _, by decide, fun _ _ hr => by cases hr⟩⟩

/-- A chunk of one row: 5, or the empty string. -/
def oneRowChunk : DataChunk where
  count := 1
  int32 := ⟨fun _ _ => 5, fun _ _ => 0, fun _ => ⟨false, 0⟩⟩
  int64 := ⟨fun _ _ => 0, fun _ _ => 0, fun _ => ⟨false, 0⟩⟩
  double := ⟨fun _ _ => 0, fun _ _ => 0, fun _ => ⟨false, 0⟩⟩
  string := ⟨fun _ _ => [], fun _ _ => 0, fun _ => ⟨false, 0⟩⟩
  nulls := fun _ _ => 0

/-- The only worker has sunk one row. -/
def oneRow (mode : HashJoinMatchMode) : BuildTables :=
  match sinkRow (stringJoin mode) oneRowChunk 0 1 emptyTables with
  | some (.ok t) => t
  | _ => emptyTables

/-- What it does next in the combine event. -/
def nextState (mode : HashJoinMatchMode) (s : CombineState) : CombineState :=
  match combine (stringJoin mode) [oneRow mode] 1 0 s with
  | some (.ok s') => s'
  | _ => s

def startState : CombineState :=
  ⟨emptyTables, none, 0, 0, 0, fun _ => 0, fun _ => 0, fun _ => 0, fun _ => false⟩

theorem sunk_oneRow (mode : HashJoinMatchMode)
    (h : sinkRow (stringJoin mode) oneRowChunk 0 1 emptyTables =
      some (.ok (oneRow mode))) : ∀ t ∈ [oneRow mode], Sunk (stringJoin mode) t := by
  intro t ht
  obtain rfl := List.mem_singleton.1 ht
  exact .row (.fresh (emptyTables_hold mode).1 fun _ => (emptyTables_hold mode).2) h

/-- The worker appends its row, and finishes. -/
theorem reachable_twoSteps (mode : HashJoinMatchMode)
    (hfirst : combine (stringJoin mode) [oneRow mode] 1 0 startState =
      some (.ok (nextState mode startState)))
    (hsecond : combine (stringJoin mode) [oneRow mode] 1 0 (nextState mode startState) =
      some (.ok (nextState mode (nextState mode startState))))
    (hrunning : (nextState mode startState).finished 0 = false) :
    (system (stringJoin mode) [oneRow mode]).Reachable
      (nextState mode (nextState mode startState)) := by
  have hinit : IsInitial (stringJoin mode) startState :=
    ⟨(emptyTables_hold mode).1, (emptyTables_hold mode).2, rfl, fun _ => rfl, fun _ => rfl⟩
  exact .step (.step (.initial hinit) ⟨Nat.one_pos, rfl, 1, hfirst⟩)
    ⟨Nat.one_pos, hrunning, 1, hsecond⟩

/-- The row of an inner join arrives. -/
theorem merged_inner : Merged (stringJoin .inner) [oneRow .inner]
    (publishHashJoinCombinedRows (stringJoin .inner)
      (nextState .inner (nextState .inner startState))) := by
  refine (merged_iff (sunk_oneRow .inner rfl) (reachable_twoSteps .inner rfl rfl rfl) ?_).2 ?_
  · intro w hw
    obtain rfl := Nat.lt_one_iff.1 hw
    rfl
  · rintro ⟨hunused, -⟩
    cases hunused

/-- **The row of a semi join on a string arrives twice.** -/
theorem not_merged : ¬ ∀ (desc : HashJoinBuildDesc) (locals : List BuildTables) (s : CombineState),
    (∀ t ∈ locals, Sunk desc t) → (system desc locals).Reachable s →
    (∀ w < locals.length, s.finished w = true) →
    Merged desc locals (publishHashJoinCombinedRows desc s) := by
  intro hall
  have hmerged := hall (stringJoin .semi) [oneRow .semi]
    (nextState .semi (nextState .semi startState)) (sunk_oneRow .semi rfl)
    (reachable_twoSteps .semi rfl rfl rfl) (fun w hw => by
      obtain rfl := Nat.lt_one_iff.1 hw
      rfl)
  have hlength := hmerged.rows.length_eq
  cases hlength

end Runs
end HashJoinBuild
end PgYaap
