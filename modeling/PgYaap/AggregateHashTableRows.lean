import PgYaap.AggregateHashTableProbes

/-! # The hash table over its row store

The hash table stands for a list of rows, no two with the same group: the row store holds them
and the directory indexes their groups. Combining a row, resizing, rehashing and growing keep
this; the last three keep the rows themselves, although a grown row store has its rows and
strings at other places. -/
namespace PgYaap

open ColumnSlots AggregateStates HashJoinBuild ProbedTables TupleDataCollection

namespace AggregateHashTable

/-- **The hash table stands for rows.** -/
structure Represents (layout : AggregateLayout) (aht : AggregateHashTable)
    (t : TupleDataCollection) (rows : List (StoredRow layout)) : Prop where
  holds : HoldsRows layout t rows
  indexes : Indexes aht (rows.map Prod.fst)

section Rows

variable {layout : AggregateLayout} {aht aht' : AggregateHashTable}
  {t t' src : TupleDataCollection} {rows srcRows : List (StoredRow layout)} {srcRow : Nat}

theorem Represents.row (h : Represents layout aht t rows) {r : Nat} (hr : r < t.rowCount) :
    ∃ row, rows[r]? = some row ∧ FilledRow layout t r row := by
  rw [h.holds.rowCount] at hr
  exact ⟨_, List.getElem?_eq_getElem hr, h.holds.row r _ (List.getElem?_eq_getElem hr)⟩

/-! ## Lookups -/

/-- A lookup: the probe of `AggregateHashTableCombineRow`, with a row of any row store. -/
def lookup (layout : AggregateLayout) (aht : AggregateHashTable) (t src : TupleDataCollection)
    (srcRow : Nat) : Option Nat :=
  match aht.probe (hashGroupRowAt layout.toTupleDataLayout src srcRow)
    (matchGroupRow layout.toTupleDataLayout src srcRow t) with
  | .found rowIdx => some rowIdx
  | .empty _ | .full => none

/-- The probe of a lookup. -/
theorem Represents.probe_ends (h : Represents layout aht t rows) (hfirst : ColumnsFirst layout)
    {row : StoredRow layout} (hsrc : FilledRow layout src srcRow row) :
    ProbeEnds aht (rows.map Prod.fst) row.1
      (aht.probe (hashGroupRowAt layout.toTupleDataLayout src srcRow)
        (matchGroupRow layout.toTupleDataLayout src srcRow t)) := by
  rw [hsrc.hash]
  refine AggregateHashTable.probe_ends h.indexes fun i hi => ?_
  rw [List.length_map] at hi
  have hfilled := h.holds.row i _ (List.getElem?_eq_getElem hi)
  rw [hsrc.matchRow_iff hfilled hfirst, List.getElem?_map, List.getElem?_eq_getElem hi,
    Option.map_some, Option.some.injEq]
  exact eq_comm

theorem lookup_eq_some {i : Nat} : lookup layout aht t src srcRow = some i ↔
    aht.probe (hashGroupRowAt layout.toTupleDataLayout src srcRow)
      (matchGroupRow layout.toTupleDataLayout src srcRow t) = .found i := by
  unfold lookup
  cases aht.probe _ _ with
  | found j => exact ⟨fun h => congrArg _ (Option.some.inj h), fun h => by cases h; rfl⟩
  | empty slot => exact ⟨fun h => absurd h.symm (Option.some_ne_none _), fun h => by cases h⟩
  | full => exact ⟨fun h => absurd h.symm (Option.some_ne_none _), fun h => by cases h⟩

/-- **A lookup** finds the row of its group, and nothing where there is none. -/
theorem Represents.lookup_eq_some_iff (h : Represents layout aht t rows)
    (hfirst : ColumnsFirst layout) {row : StoredRow layout} (hsrc : FilledRow layout src srcRow row)
    {i : Nat} : lookup layout aht t src srcRow = some i ↔
      (rows.map Prod.fst)[i]? = some row.1 := by
  rw [lookup_eq_some]
  exact (h.probe_ends hfirst hsrc).found_iff h.indexes

/-! ## Resizing and growing -/

theorem Represents.rehash (h : Represents layout aht t rows) {aht₀ : AggregateHashTable}
    (hok : AggregateHashTable.rehash layout aht₀ t = .ok aht') : Represents layout aht' t rows :=
  ⟨h.holds, (rehash_indexes h.holds h.indexes.nodup hok).1⟩

theorem Represents.resize (h : Represents layout aht t rows)
    (hok : resizeAhtForTdc layout aht t = .ok aht') : Represents layout aht' t rows := by
  unfold resizeAhtForTdc at hok
  split at hok
  · rw [← Except.ok.inj hok]
    exact h
  · exact h.rehash hok

/-- The copy loop of `GrowTdcForPartition` copies the rows with their states. -/
theorem growCopyRows_holds {owner : String} {new : TupleDataCollection}
    (hold : HoldsRows layout t rows) (hnew : HoldsRows layout new []) {n : Nat}
    (hn : n ≤ rows.length) (hok : (List.range n).foldlM (growCopyRow owner layout t) new = .ok t') :
    HoldsRows layout t' (rows.take n) := by
  induction n generalizing t' with
  | zero =>
    obtain rfl := Except.ok.inj hok
    exact hnew
  | succ n ih =>
    obtain ⟨mid, hmid, hturn⟩ := foldlM_range_succ hok
    have hrows := ih (by omega) hmid
    unfold growCopyRow at hturn
    cases happ : mid.appendRow with
    | none =>
      rw [happ] at hturn
      cases hturn
    | some added =>
      rw [happ] at hturn
      have hfilled := hold.row n _ (List.getElem?_eq_getElem hn)
      have hcopied := hrows.append_copy happ hturn
      rw [hfilled.decodeRow, hfilled.states] at hcopied
      rw [List.take_succ_eq_append_getElem hn]
      exact hcopied

/-- **Growing keeps the rows.** -/
theorem Represents.grow (h : Represents layout aht t rows) {owner : String} {required : Nat}
    (hok : growTdc owner layout t required = .ok (aht', t')) : Represents layout aht' t' rows := by
  unfold growTdc at hok
  obtain ⟨newCapacity, -, hok⟩ := bind_eq_ok hok
  obtain ⟨heapCapacity, hheap, hok⟩ := bind_eq_ok hok
  obtain ⟨new, hnew, hok⟩ := bind_eq_ok hok
  obtain ⟨copied, hcopied, hok⟩ := bind_eq_ok hok
  obtain ⟨table, htable, hpure⟩ := bind_eq_ok hok
  obtain ⟨rfl, rfl⟩ := Prod.mk.inj (Except.ok.inj hpure)
  rw [h.holds.rowCount] at hcopied
  have hrows := growCopyRows_holds h.holds
    (allocate_holdsRows (growHeapCapacity_lt hheap) hnew) (Nat.le_refl _) hcopied
  rw [List.take_length] at hrows
  exact ⟨hrows, (rehash_indexes hrows h.indexes.nodup htable).1⟩

/-! ## Changing rows -/

/-- A change of the states of a row. -/
theorem Represents.onlyStates (h : Represents layout aht t rows) {r : Nat} (hr : r < t.rowCount)
    (honly : OnlyStates t t' r layout.aggregates) :
    ∃ rows', Represents layout aht t' rows' ∧ rows'.map Prod.fst = rows.map Prod.fst := by
  obtain ⟨row, hrow, -⟩ := h.row hr
  refine ⟨rows.set r (row.1, t'.states layout r), ⟨h.holds.onlyStates hrow honly rfl, ?_⟩, ?_⟩
  all_goals
    have hlt := (List.getElem?_eq_some_iff.1 hrow).1
    have hsame : (rows.set r (row.1, t'.states layout r)).map Prod.fst = rows.map Prod.fst := by
      rw [List.map_set]
      refine List.ext_getElem? fun i => ?_
      by_cases hi : r = i
      · subst hi
        rw [List.getElem?_set_self (by rwa [List.length_map]), List.getElem?_map, hrow]
        rfl
      · rw [List.getElem?_set_ne hi]
    rw [hsame]
  exact h.indexes

/-- **Combining a row** keeps the groups, and adds the group of the row where it is missing. -/
theorem Represents.combineRow (h : Represents layout aht t rows) (hfirst : ColumnsFirst layout)
    {row : StoredRow layout} (hsrc : FilledRow layout src srcRow row)
    (hok : AggregateHashTable.combineRow layout aht t src srcRow
      (hashGroupRowAt layout.toTupleDataLayout src srcRow) = .ok (aht', t')) :
    ∃ rows', Represents layout aht' t' rows' ∧
      (row.1 ∈ rows.map Prod.fst ∧ rows'.map Prod.fst = rows.map Prod.fst ∨
        rows'.map Prod.fst = rows.map Prod.fst ++ [row.1]) := by
  have hends := h.probe_ends hfirst hsrc
  unfold AggregateHashTable.combineRow at hok
  generalize aht.probe _ _ = outcome at hends hok
  cases hends with
  | found hi =>
    dsimp only at hok
    obtain ⟨rfl, rfl⟩ := Prod.mk.inj (Except.ok.inj hok)
    have hlt := (List.getElem?_eq_some_iff.1 hi).1
    rw [List.length_map, ← h.holds.rowCount] at hlt
    obtain ⟨rows', hrows', hsame⟩ := h.onlyStates hlt (combineAggregatesAt_spec layout t _ _ _).1
    exact ⟨rows', hrows', Or.inl ⟨List.mem_of_getElem? hi, hsame⟩⟩
  | @empty n hempty hpassed =>
    dsimp only at hok
    cases happ : t.appendRow with
    | none =>
      rw [happ] at hok
      cases hok
    | some added =>
      obtain ⟨dst, newIdx⟩ := added
      rw [happ] at hok
      obtain ⟨mid, hmid, hpure⟩ := bind_eq_ok hok
      obtain ⟨rfl, rfl⟩ := Prod.mk.inj (Except.ok.inj hpure)
      obtain ⟨-, -, rfl⟩ := appendRow_eq happ
      have hadded := h.holds.append_copyGroup happ hmid
      rw [hsrc.decodeRow] at hadded
      have hindexes := h.indexes.setEntry hpassed hempty
      rw [List.length_map, ← h.holds.rowCount] at hindexes
      have hmidRows : Represents layout (aht.setEntry (path aht.capacity row.1 n) (tag row.1)
          t.rowCount) mid (rows ++ [(row.1, initStates)]) := by
        refine ⟨hadded, ?_⟩
        rw [List.map_append]
        exact hindexes
      have hcount : t.rowCount < mid.rowCount := by
        rw [hadded.rowCount, List.length_append, List.length_singleton, ← h.holds.rowCount]
        exact Nat.lt_succ_self _
      obtain ⟨rows', hrows', hsame⟩ := hmidRows.onlyStates hcount
        (combineAggregatesAt_spec layout mid t.rowCount src srcRow).1
      rw [List.map_append] at hsame
      refine ⟨rows', ?_, Or.inr hsame⟩
      rw [hsrc.hash]
      exact hrows'
  | full hpassed => cases hok

end Rows
end AggregateHashTable
end PgYaap
