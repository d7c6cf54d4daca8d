import PgYaap.AggregateTableGrowth

/-! # Growing the row stores of sorts

The row stores of the sort, of the output sink and of the perfect hash aggregate are grown like
those of the aggregate, without a directory. Each has a copy of the code; they differ in the texts
of their errors, and the output sink copies rows without strings as they are. -/
namespace PgYaap

open AggregateStates HashJoinBuild TupleDataCollection

namespace PayloadStores

/-- Copy a row of one row store into a row of another. -/
abbrev CopyRow : Type :=
  TupleDataCollection → Nat → TupleDataCollection → Nat → Except String TupleDataCollection

/-- The turn of the copy loops. -/
def growCopyRow (overflow : String) (copyRow : CopyRow) (old new : TupleDataCollection)
    (rowIdx : Nat) : Except String TupleDataCollection :=
  match new.appendRow with
  | none => .error overflow
  | some (new, dst) => copyRow old rowIdx new dst

/-- `CopyTdcRow`, with the text of its error. -/
def copyTdcRow (outOfHeap : String) (layout : AggregateLayout) (src : TupleDataCollection)
    (srcRow : Nat) (dst : TupleDataCollection) (dstRow : Nat) : Except String TupleDataCollection :=
  ((copyBuildRow layout.toTupleDataLayout src srcRow dst dstRow).mapError fun _ => outOfHeap).map
    fun dst => copyAggregates layout src srcRow dst dstRow

/-- `CopyTdcRow` of the output sink. -/
def copyOutputRow (layout : AggregateLayout) (src : TupleDataCollection) (srcRow : Nat)
    (dst : TupleDataCollection) (dstRow : Nat) : Except String TupleDataCollection :=
  if layout.hasStringRef = false then
    .ok { dst with
      rows := dst.rows.write (dst.getRow dstRow)
        (src.rows.read (src.getRow srcRow) layout.rowWidth) }
  else copyTdcRow "pg_yaap: output TDC grow ran out of heap" layout src srcRow dst dstRow

/-- The body of `GrowOrderTdc` and of `GrowOutputTdc`. -/
def growTdc (overflow : String) (copyRow : CopyRow) (layout : AggregateLayout)
    (old : TupleDataCollection) (requiredHeapBytes : Nat) : Except String TupleDataCollection := do
  let newCapacity ← clampRowCapacity (max (old.rowCapacity * 2 % 2 ^ 32) (old.rowCount + 1))
    old.rowWidth requiredHeapBytes (old.rowCount + 1)
  let heapCapacity ← growHeapCapacity layout.toTupleDataLayout old newCapacity requiredHeapBytes
  let new ← allocate newCapacity old.rowWidth heapCapacity
  (List.range old.rowCount).foldlM (growCopyRow overflow copyRow old) new

def growOrderTdc (layout : AggregateLayout) :
    TupleDataCollection → Nat → Except String TupleDataCollection :=
  growTdc "pg_yaap: order TDC grow copy overflow"
    (copyTdcRow "pg_yaap: order TDC grow ran out of heap" layout) layout

def growOutputTdc (layout : AggregateLayout) :
    TupleDataCollection → Nat → Except String TupleDataCollection :=
  growTdc "pg_yaap: output TDC grow copy overflow" (copyOutputRow layout) layout

/-- `GrowLocalTdc` and `GrowGlobalTdc` of the perfect hash aggregate, which do not clamp. -/
def growPerfectTdc (overflow : String) (layout : AggregateLayout) (old : TupleDataCollection) :
    Except String TupleDataCollection := do
  let newCapacity := max (old.rowCapacity * 2 % 2 ^ 32) (old.rowCount + 1)
  let heapCapacity :=
    if 0 < old.heapCapacity then old.heapCapacity * 2 % 2 ^ 32
    else defaultHeapCapacity layout.toTupleDataLayout newCapacity
  let new ← allocate newCapacity layout.rowWidth heapCapacity
  (List.range old.rowCount).foldlM (growCopyRow overflow
    (copyTdcRow "pg_yaap: perfect hash TDC copy ran out of heap" layout) old) new

def growLocalPerfectTdc : AggregateLayout → TupleDataCollection →
    Except String TupleDataCollection :=
  growPerfectTdc "pg_yaap: perfect hash local TDC grow overflow"

def growGlobalPerfectTdc : AggregateLayout → TupleDataCollection →
    Except String TupleDataCollection :=
  growPerfectTdc "pg_yaap: perfect hash global TDC grow overflow"

/-! ## Sizes -/

section Sizes

variable {layout : AggregateLayout} {copyRow : CopyRow} {overflow outOfHeap : String}
  {src dst dst' old new t : TupleDataCollection} {srcRow dstRow required : Nat}

/-- A row is copied in place: heap bytes are taken, and no other counter changes. -/
def InPlace (copyRow : CopyRow) : Prop :=
  ∀ src srcRow dst dstRow dst', copyRow src srcRow dst dstRow = .ok dst' →
    ∃ heapUsed rows, dst' = { dst with heapUsed := heapUsed, rows := rows }

theorem map_eq_ok {α β : Type} {x : Except String α} {f : α → β} {b : β}
    (h : x.map f = .ok b) : ∃ a, x = .ok a ∧ f a = b := by
  cases x with
  | error e => cases h
  | ok a => exact ⟨a, rfl, Except.ok.inj h⟩

theorem copyBuildRow_inPlace (layout : TupleDataLayout) : InPlace (copyBuildRow layout) := by
  intro src srcRow dst dstRow dst' h
  obtain ⟨rows, rfl⟩ := copyBuildRow_eq h
  exact ⟨_, rows, rfl⟩

theorem copyTdcRow_inPlace (outOfHeap : String) (layout : AggregateLayout) :
    InPlace (copyTdcRow outOfHeap layout) := by
  intro src srcRow dst dstRow dst' h
  obtain ⟨mid, hmid, rfl⟩ := map_eq_ok h
  obtain ⟨heapUsed, rows, rfl⟩ := copyBuildRow_inPlace _ _ _ _ _ _ (mapError_eq_ok hmid)
  obtain ⟨rows', hrows'⟩ := AggregateHashTable.copyAggregates_eq layout src srcRow
    { dst with heapUsed := heapUsed, rows := rows } dstRow
  exact ⟨heapUsed, rows', hrows'⟩

theorem copyOutputRow_inPlace (layout : AggregateLayout) : InPlace (copyOutputRow layout) := by
  intro src srcRow dst dstRow dst' h
  unfold copyOutputRow at h
  split at h
  · obtain rfl := Except.ok.inj h
    exact ⟨dst.heapUsed, _, rfl⟩
  · exact copyTdcRow_inPlace _ layout _ _ _ _ _ h

/-- **The copy loops** count the rows. -/
theorem growCopyRows_eq (hcopy : InPlace copyRow) (n : Nat) : ∀ {t : TupleDataCollection},
    (List.range n).foldlM (growCopyRow overflow copyRow old) new = .ok t →
    ∃ heapUsed rows, t = { new with
      rowCount := new.rowCount + n, heapUsed := heapUsed, rows := rows } := by
  induction n with
  | zero =>
    intro t h
    rw [← Except.ok.inj h]
    exact ⟨new.heapUsed, new.rows, rfl⟩
  | succ n ih =>
    intro t h
    obtain ⟨mid, hmid, hturn⟩ := foldlM_range_succ h
    obtain ⟨heapUsed, rows, rfl⟩ := ih hmid
    unfold growCopyRow at hturn
    split at hturn
    · cases hturn
    · rename_i dst r happ
      obtain ⟨-, rfl, -⟩ := appendRow_eq happ
      obtain ⟨heapUsed', rows', rfl⟩ := hcopy _ _ _ _ _ hturn
      exact ⟨heapUsed', rows', rfl⟩

/-- **Growing** gives the sizes of the helpers, as for the other row stores. -/
theorem growTdc_grown (hcopy : InPlace copyRow) (hwidth : old.rowWidth = layout.rowWidth)
    (h : growTdc overflow copyRow layout old required = .ok t) :
    Grown layout.toTupleDataLayout old required t := by
  unfold growTdc at h
  rw [hwidth] at h
  obtain ⟨newCapacity, hclamp, h⟩ := bind_eq_ok h
  obtain ⟨heapCapacity, hheap, h⟩ := bind_eq_ok h
  obtain ⟨new, hnew, h⟩ := bind_eq_ok h
  obtain ⟨hcheck, rfl⟩ := allocate_eq hnew
  obtain ⟨heapUsed, rows, rfl⟩ := growCopyRows_eq hcopy _ h
  exact ⟨hclamp, hheap, hcheck, rfl, Nat.zero_add _⟩

/-- The perfect hash aggregate grows to more rows than there are. -/
theorem growPerfectTdc_rowCount_lt (h : growPerfectTdc overflow layout old = .ok t) :
    t.rowCount < t.rowCapacity := by
  unfold growPerfectTdc at h
  dsimp only at h
  obtain ⟨new, hnew, h⟩ := bind_eq_ok h
  obtain ⟨-, rfl⟩ := allocate_eq hnew
  obtain ⟨heapUsed, rows, rfl⟩ := growCopyRows_eq (copyTdcRow_inPlace _ layout) _ h
  dsimp only
  omega

end Sizes
end PayloadStores
end PgYaap
