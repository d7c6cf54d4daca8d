import PgYaap.GroupMatching
import PgYaap.ProbedTables

/-! # The hash table of the aggregate

The directory of the hash table keeps, for every row of the row store, a salt and the index of
the row. A row is looked for from the slot its hash names, with an odd step, so that a table
whose capacity is a power of two is walked through once before a slot is met again. Rows whose
salt agrees are compared by their group columns. -/
namespace PgYaap

open ColumnSlots AggregateStates HashJoinBuild ProbedTables TupleDataCollection

/-- `AggregateHashTable`. An entry is the salt and the row index that the source packs into 64
bits; `none` stands for `AHT_EMPTY_ENTRY_VALUE`, all ones, which no row index packs to. -/
structure AggregateHashTable where
  capacity : Nat
  powerOfTwo : ∃ k, capacity = 2 ^ k
  entries : Nat → Option (UInt16 × Nat)

namespace AggregateHashTable

/-! ## Capacities -/

/-- The loop of `AggregateHashTableChooseCapacity`: double until it is enough. -/
def doubleUntil (needed : Nat) : Nat → Nat → Nat
  | 0, pow2 => pow2
  | fuel + 1, pow2 => if pow2 < needed then doubleUntil needed fuel (pow2 <<< 1) else pow2

/-- `kMaxCapacity`. -/
def maxCapacity : Nat := 1 <<< 22

/-- What `AggregateHashTableChooseCapacity` needs: one and a half slots for every group, within
its bounds. -/
def neededCapacity (maxGroups : Nat) : Nat :=
  let groups := if maxGroups < 1 then 1 else maxGroups
  let needed := groups + groups / 2 + 1
  let needed := if needed < 32 then 32 else needed
  if maxCapacity < needed then maxCapacity else needed

/-- `AggregateHashTableChooseCapacity`. Its loop ends after at most 22 turns. -/
def chooseCapacity (maxGroups : Nat) : Nat := doubleUntil (neededCapacity maxGroups) 22 1

theorem doubleUntil_powerOfTwo (needed fuel : Nat) : ∀ pow2, (∃ k, pow2 = 2 ^ k) →
    ∃ k, doubleUntil needed fuel pow2 = 2 ^ k := by
  induction fuel with
  | zero => exact fun _ h => h
  | succ fuel ih =>
    rintro pow2 ⟨k, rfl⟩
    rw [doubleUntil]
    split
    · exact ih _ ⟨k + 1, by rw [Nat.shiftLeft_eq, ← Nat.pow_add]⟩
    · exact ⟨k, rfl⟩

theorem le_doubleUntil (needed fuel : Nat) : ∀ pow2, needed ≤ 2 ^ fuel * pow2 →
    needed ≤ doubleUntil needed fuel pow2 := by
  induction fuel with
  | zero =>
    intro pow2 h
    rwa [pow_zero, Nat.one_mul] at h
  | succ fuel ih =>
    intro pow2 h
    rw [doubleUntil]
    split
    · apply ih
      have hdouble : 2 ^ fuel * (pow2 <<< 1) = 2 ^ (fuel + 1) * pow2 := by
        rw [Nat.shiftLeft_eq]
        ring
      omega
    · rename_i hle
      exact Nat.le_of_not_lt hle

theorem chooseCapacity_powerOfTwo (maxGroups : Nat) : ∃ k, chooseCapacity maxGroups = 2 ^ k :=
  doubleUntil_powerOfTwo _ _ 1 ⟨0, rfl⟩

theorem neededCapacity_le (maxGroups : Nat) : neededCapacity maxGroups ≤ maxCapacity := by
  unfold neededCapacity
  dsimp only
  split_ifs <;> omega

theorem neededCapacity_le_chooseCapacity (maxGroups : Nat) :
    neededCapacity maxGroups ≤ chooseCapacity maxGroups := by
  apply le_doubleUntil
  have hle := neededCapacity_le maxGroups
  have hmax : maxCapacity = 2 ^ 22 * 1 := rfl
  omega

/-- **The chosen capacity** leaves a slot free beside the groups, up to `maxCapacity`. -/
theorem lt_chooseCapacity (maxGroups : Nat) :
    maxGroups < chooseCapacity maxGroups ∨ maxCapacity ≤ chooseCapacity maxGroups := by
  have hneeded : maxGroups < neededCapacity maxGroups ∨
      maxCapacity ≤ neededCapacity maxGroups := by
    unfold neededCapacity
    dsimp only
    split_ifs <;> omega
  have hle := neededCapacity_le_chooseCapacity maxGroups
  omega

/-! ## Entries -/

/-- `AggregateHashTableInit`. -/
def init (capacity : Nat) (h : ∃ k, capacity = 2 ^ k) : AggregateHashTable :=
  ⟨capacity, h, fun _ => none⟩

/-- `HashSalt`. -/
def hashSalt (hash : UInt64) : UInt16 := (hash >>> 48).toUInt16

/-- `ProbeStep`. -/
def probeStep (hash : UInt64) : Nat := ((hash >>> 59) ||| 1).toUInt32.toNat

/-- The slot that a hash names. -/
def firstSlot (aht : AggregateHashTable) (hash : UInt64) : Nat :=
  hash.toUInt32.toNat &&& (aht.capacity - 1)

def nextSlot (aht : AggregateHashTable) (hash : UInt64) (slot : Nat) : Nat :=
  (slot + probeStep hash) &&& (aht.capacity - 1)

def setEntry (aht : AggregateHashTable) (slot : Nat) (salt : UInt16) (rowIdx : Nat) :
    AggregateHashTable :=
  { aht with entries := Function.update aht.entries slot (some (salt, rowIdx)) }

/-- Where a probe ends. -/
inductive ProbeOutcome
  | found (rowIdx : Nat)
  | empty (slot : Nat)
  | full

/-- The probe loop, with the tries that are left. -/
def probeFrom (aht : AggregateHashTable) (hash : UInt64) (isMatch : Nat → Bool) (slot : Nat) :
    Nat → ProbeOutcome
  | 0 => .full
  | tries + 1 =>
    match aht.entries slot with
    | none => .empty slot
    | some (salt, rowIdx) =>
      if salt = hashSalt hash ∧ isMatch rowIdx = true then .found rowIdx
      else probeFrom aht hash isMatch (aht.nextSlot hash slot) tries

def probe (aht : AggregateHashTable) (hash : UInt64) (isMatch : Nat → Bool) : ProbeOutcome :=
  probeFrom aht hash isMatch (aht.firstSlot hash) aht.capacity

/-! ## Operations -/

/-- `AggregateHashTableFindOrInsert` for a candidate row of the row store: whether it was
inserted, and the index of the row of its group. -/
def findOrInsert (layout : AggregateLayout) (aht : AggregateHashTable) (t : TupleDataCollection)
    (groupRowIdx : Nat) (hash : UInt64) : Except String (AggregateHashTable × Bool × Nat) :=
  match aht.probe hash (matchGroupRow layout.toTupleDataLayout t groupRowIdx t) with
  | .empty slot => .ok (aht.setEntry slot (hashSalt hash) groupRowIdx, true, groupRowIdx)
  | .found existing => .ok (aht, false, existing)
  | .full => .error "pg_yaap: AggregateHashTable full (capacity=%u)"

/-- `AggregateHashTableCombineRow`. -/
def combineRow (layout : AggregateLayout) (aht : AggregateHashTable) (t : TupleDataCollection)
    (src : TupleDataCollection) (srcRow : Nat) (hash : UInt64) :
    Except String (AggregateHashTable × TupleDataCollection) :=
  match aht.probe hash (matchGroupRow layout.toTupleDataLayout src srcRow t) with
  | .empty slot =>
    match t.appendRow with
    | none => .error "pg_yaap: AggregateHashTableCombineRow TDC full"
    | some (dst, newIdx) => do
      let t ← copyGroup layout src srcRow dst newIdx
      return (aht.setEntry slot (hashSalt hash) newIdx,
        t.combineAggregatesAt layout newIdx src srcRow)
  | .found existing => .ok (aht, t.combineAggregatesAt layout existing src srcRow)
  | .full => .error "pg_yaap: AggregateHashTableCombineRow AHT full (capacity=%u)"

/-- The turn of `AggregateHashTableRehash` for a row: its loop is that of a probe that compares
no rows. -/
def rehashRow (layout : AggregateLayout) (t : TupleDataCollection) (aht : AggregateHashTable)
    (rowIdx : Nat) : Except String AggregateHashTable :=
  let hash := hashGroupRowAt layout.toTupleDataLayout t rowIdx
  match aht.probe hash fun _ => false with
  | .empty slot => .ok (aht.setEntry slot (hashSalt hash) rowIdx)
  | .found _ | .full => .error "pg_yaap: AggregateHashTable rehash failed (capacity=%u)"

/-- `AggregateHashTableRehash`. -/
def rehash (layout : AggregateLayout) (aht : AggregateHashTable) (t : TupleDataCollection) :
    Except String AggregateHashTable :=
  (List.range t.rowCount).foldlM (rehashRow layout t) { aht with entries := fun _ => none }

/-- `AggregateHashTableShouldResize`. -/
def shouldResize (aht : AggregateHashTable) (t : TupleDataCollection) : Bool :=
  aht.capacity * 2 ≤ t.rowCount * 3

/-- `ResizeAhtForTdc`. -/
def resizeAhtForTdc (layout : AggregateLayout) (aht : AggregateHashTable)
    (t : TupleDataCollection) : Except String AggregateHashTable :=
  if aht.shouldResize t = false then .ok aht
  else rehash layout (init (aht.capacity <<< 1) (by
    obtain ⟨k, hk⟩ := aht.powerOfTwo
    exact ⟨k + 1, by rw [hk, Nat.shiftLeft_eq, ← Nat.pow_add]⟩)) t

/-- The turn of the copy loop of `GrowTdcForPartition`. -/
def growCopyRow (owner : String) (layout : AggregateLayout) (old new : TupleDataCollection)
    (rowIdx : Nat) : Except String TupleDataCollection :=
  match new.appendRow with
  | none => .error (owner ++ " TDC grow copy overflow")
  | some (new, dst) => copyTdcRow layout old rowIdx new dst

/-- `GrowTdcForPartition`, `GrowLocalTdc` and `GrowLocalTdcForLayout`, which differ in whom their
errors name. -/
def growTdc (owner : String) (layout : AggregateLayout) (old : TupleDataCollection)
    (requiredHeapBytes : Nat) : Except String (AggregateHashTable × TupleDataCollection) := do
  let newCapacity ← clampRowCapacity (max (old.rowCapacity * 2 % 2 ^ 32) (old.rowCount + 1))
    layout.rowWidth requiredHeapBytes (old.rowCount + 1)
  let heapCapacity ← growHeapCapacity layout.toTupleDataLayout old newCapacity requiredHeapBytes
  let new ← allocate newCapacity layout.rowWidth heapCapacity
  let new ← (List.range old.rowCount).foldlM (growCopyRow owner layout old) new
  let aht ← rehash layout (init (chooseCapacity newCapacity) (chooseCapacity_powerOfTwo _)) new
  return (aht, new)

def growTdcForPartition : AggregateLayout → TupleDataCollection → Nat →
    Except String (AggregateHashTable × TupleDataCollection) :=
  growTdc "pg_yaap: hash aggregate"

def growLocalTdc : AggregateLayout → TupleDataCollection → Nat →
    Except String (AggregateHashTable × TupleDataCollection) :=
  growTdc "pg_yaap: local hash aggregate"

def growLocalTdcForLayout : AggregateLayout → TupleDataCollection → Nat →
    Except String (AggregateHashTable × TupleDataCollection) :=
  growTdc "pg_yaap: local distinct aggregate"

end AggregateHashTable
end PgYaap
