import PgYaap.AggregateStates
import PgYaap.BoundedSelection
import PgYaap.NullFlags

/-! # Sort keys

The operators that sort compare stored rows key by key. Each has a copy of the same comparison:
numbers by their value, strings by their bytes and then by their length, and the result is turned
around for a descending key. The row store has no null flags, and where NULL values go is a field
of a sort key that no comparison reads; a NaN is neither less nor greater than anything.

SQL puts NULL values where the key says, and NaN behind all other numbers. The two agree on values
that are neither. The collation of a key is never set, and text is compared by its bytes. -/
namespace PgYaap
namespace SortKeys

open AggregateStates BoundedSelection TupleDataCollection

/-- `SortKeyDesc`, without the collation. -/
structure SortKeyDesc where
  colIdx : Nat
  asc : Bool
  nullsFirst : Bool
deriving DecidableEq

/-- `key.asc ? cmp : -cmp`. -/
def SortKeyDesc.direct (key : SortKeyDesc) (cmp : Ordering) : Ordering :=
  if key.asc then cmp else cmp.swap

/-! ## Doubles -/

/-- Whether the bits are those of a NaN. -/
def doubleIsNaN (bits : UInt64) : Bool :=
  0x7FF0000000000000 < bits &&& 0x7FFFFFFFFFFFFFFF

/-- The place of a double that is no NaN among the others: both zeros are at one place. -/
def doublePlace (bits : UInt64) : Int :=
  let magnitude : Int := ((bits &&& 0x7FFFFFFFFFFFFFFF).toNat : Int)
  if bits < 0x8000000000000000 then magnitude else -magnitude

/-- `a < b` on doubles. -/
def doubleLess (a b : UInt64) : Bool :=
  !doubleIsNaN a && !doubleIsNaN b && doublePlace a < doublePlace b

/-! ## The comparison of the code -/

/-- `(a < b) ? -1 : (a > b) ? 1 : 0`. -/
def compareBy {α : Type} (less : α → α → Bool) (a b : α) : Ordering :=
  if less a b then .lt else if less b a then .gt else .eq

/-- `memcmp` of the bytes that two strings both have. -/
def memcmp : List UInt8 → List UInt8 → Ordering
  | a :: as, b :: bs => if a < b then .lt else if b < a then .gt else memcmp as bs
  | _, _ => .eq

/-- Strings: their common bytes, then their lengths. -/
def compareStrings (a b : List UInt8) : Ordering :=
  if memcmp a b ≠ .eq then memcmp a b
  else compareBy (fun a b => decide (a < b)) a.length b.length

/-- `CompareKeyColumn` and `CompareOutputKeyColumn`. Both values are of the kind of the column. -/
def compareKeyColumn : Datum → Datum → Ordering
  | .int32 a, .int32 b => compareBy (fun a b => decide (a < b)) a b
  | .int64 a, .int64 b => compareBy (fun a b => decide (a < b)) a b
  | .double a, .double b => compareBy doubleLess a b
  | .stringRef a, .stringRef b => compareStrings a b
  | _, _ => .eq

/-- The loop over the keys; `none` is a key of no column, which is passed over. -/
def compareKeys (cmp : SortKeyDesc → Option Ordering) : List SortKeyDesc → Ordering
  | [] => .eq
  | key :: keys =>
    match cmp key with
    | none => compareKeys cmp keys
    | some c => if c ≠ .eq then key.direct c else compareKeys cmp keys

/-! ## The comparison of SQL -/

/-- The number of a value, NaN behind all others. -/
def sqlNumber : Datum → Int
  | .int32 v => v.toInt
  | .int64 v => v.toInt
  | .double bits => if doubleIsNaN bits then 2 ^ 63 else doublePlace bits
  | .stringRef _ => 0

def sqlBytes : Datum → List UInt8
  | .stringRef bytes => bytes
  | _ => []

/-- Values of one type: numbers by their value, strings byte by byte. -/
def sqlCompareValues : Datum → Datum → Ordering :=
  compareLex (compareOn sqlNumber) (compareOn sqlBytes)

/-- Values that may be NULL, under a key. -/
def sqlCompareCells (key : SortKeyDesc) : Option Datum → Option Datum → Ordering
  | none, none => .eq
  | none, some _ => if key.nullsFirst then .lt else .gt
  | some _, none => if key.nullsFirst then .gt else .lt
  | some a, some b => key.direct (sqlCompareValues a b)

/-- **ORDER BY**: rows by their first key, then by the others. -/
def sqlCompareRows : List SortKeyDesc → List (Option Datum) → List (Option Datum) → Ordering
  | [], _, _ => .eq
  | key :: keys, a, b =>
    (sqlCompareCells key a[key.colIdx]?.join b[key.colIdx]?.join).then (sqlCompareRows keys a b)

/-! ## Rows of chunks -/

/-- What a chunk row has in a slot: nothing, where its null flag is set. -/
def sqlCell (row : ChunkRow) (place : TdcColumnDesc) : Option Datum :=
  if row.1.nulls place.srcColIdx row.2 = 0 then
    some (row.1.get place.kind place.srcColIdx row.2)
  else none

/-- The values of a chunk row in some slots. -/
def sqlRow (places : List TdcColumnDesc) (row : ChunkRow) : List (Option Datum) :=
  places.map (sqlCell row)

/-- The rows of a chunk. -/
def chunkRows (chunk : DataChunk) : List ChunkRow := (List.range chunk.count).map fun i => (chunk, i)

/-- Rows by the keys. -/
def compareChunkRows (keys : List SortKeyDesc) (places : List TdcColumnDesc) (a b : ChunkRow) :
    Ordering := sqlCompareRows keys (sqlRow places a) (sqlRow places b)

/-! ## SQL has an order -/

instance : Std.TransCmp sqlCompareValues :=
  inferInstanceAs (Std.TransCmp (compareLex (compareOn sqlNumber) (compareOn sqlBytes)))

section Order

variable {key : SortKeyDesc} {keys : List SortKeyDesc}

theorem SortKeyDesc.direct_swap (key : SortKeyDesc) (c : Ordering) :
    (key.direct c).swap = key.direct c.swap := by
  unfold SortKeyDesc.direct
  split <;> rfl

/-- Turning a comparison around. -/
theorem direct_isLE_trans {a b c : Datum}
    (hab : (key.direct (sqlCompareValues a b)).isLE = true)
    (hbc : (key.direct (sqlCompareValues b c)).isLE = true) :
    (key.direct (sqlCompareValues a c)).isLE = true := by
  unfold SortKeyDesc.direct at hab hbc ⊢
  by_cases hasc : key.asc = true
  · rw [if_pos hasc] at hab hbc ⊢
    exact Std.TransCmp.isLE_trans hab hbc
  · rw [if_neg hasc, ← Std.OrientedCmp.eq_swap] at hab hbc ⊢
    exact Std.TransCmp.isLE_trans hbc hab

instance (key : SortKeyDesc) : Std.TransCmp (sqlCompareCells key) where
  eq_swap := by
    intro a b
    cases a with
    | none =>
      cases b with
      | none => rfl
      | some b => cases hfirst : key.nullsFirst <;> simp [sqlCompareCells, hfirst]
    | some a =>
      cases b with
      | none => cases hfirst : key.nullsFirst <;> simp [sqlCompareCells, hfirst]
      | some b =>
        show key.direct (sqlCompareValues a b) = (key.direct (sqlCompareValues b a)).swap
        rw [SortKeyDesc.direct_swap, ← Std.OrientedCmp.eq_swap]
  isLE_trans := by
    intro a b c hab hbc
    cases a <;> cases b <;> cases c
    case some.some.some a b c => exact direct_isLE_trans hab hbc
    all_goals cases hfirst : key.nullsFirst <;> simp_all [sqlCompareCells]

/-- Comparing by a function. -/
theorem transCmp_on {α β : Type} {cmp : β → β → Ordering} [Std.TransCmp cmp] (f : α → β) :
    Std.TransCmp fun a b => cmp (f a) (f b) where
  eq_swap := Std.OrientedCmp.eq_swap
  isLE_trans := Std.TransCmp.isLE_trans

theorem sqlCompareRows_nil : sqlCompareRows [] = fun _ _ => .eq := rfl

theorem sqlCompareRows_cons (key : SortKeyDesc) (keys : List SortKeyDesc) :
    sqlCompareRows (key :: keys) = compareLex
      (fun a b => sqlCompareCells key a[key.colIdx]?.join b[key.colIdx]?.join)
      (sqlCompareRows keys) := rfl

instance (keys : List SortKeyDesc) : Std.TransCmp (sqlCompareRows keys) := by
  induction keys with
  | nil =>
    rw [sqlCompareRows_nil]
    exact { eq_swap := rfl, isLE_trans := fun _ _ => rfl }
  | cons key keys ih =>
    have hkey : Std.TransCmp fun a b : List (Option Datum) =>
        sqlCompareCells key a[key.colIdx]?.join b[key.colIdx]?.join :=
      transCmp_on fun row : List (Option Datum) => row[key.colIdx]?.join
    rw [sqlCompareRows_cons]
    infer_instance

instance (keys : List SortKeyDesc) (places : List TdcColumnDesc) :
    Std.TransCmp (compareChunkRows keys places) := transCmp_on (sqlRow places)

end Order

/-! ## The code has the same order on values that are not NaN -/

/-- A NaN. -/
def isNaN : Datum → Bool
  | .double bits => doubleIsNaN bits
  | _ => false

section Agreement

variable {key : SortKeyDesc} {keys : List SortKeyDesc} {a b : Datum}

theorem compareBy_eq {α : Type} {less : α → α → Bool} {a b : α} {place : α → Int}
    (hab : less a b = true ↔ place a < place b) (hba : less b a = true ↔ place b < place a) :
    compareBy less a b = compare (place a) (place b) := by
  unfold compareBy
  by_cases h : place a < place b
  · rw [if_pos (hab.2 h)]
    exact (Std.compare_eq_lt.2 h).symm
  · rw [if_neg (fun hless => h (hab.1 hless))]
    by_cases h' : place b < place a
    · rw [if_pos (hba.2 h')]
      exact (Std.compare_eq_gt.2 h').symm
    · rw [if_neg (fun hless => h' (hba.1 hless))]
      have heq : place a = place b := by omega
      rw [heq, Std.compare_self]

theorem memcmp_cons (x y : UInt8) (a b : List UInt8) :
    memcmp (x :: a) (y :: b) = if x < y then .lt else if y < x then .gt else memcmp a b := rfl

/-- Strings are compared byte by byte, and a string before those that it begins. -/
theorem compareStrings_eq (a b : List UInt8) : compareStrings a b = compare a b := by
  unfold compareStrings
  induction a generalizing b with
  | nil =>
    cases b with
    | nil => rfl
    | cons y b => rfl
  | cons x a ih =>
    cases b with
    | nil => rfl
    | cons y b =>
      rw [List.compare_cons_cons, ← ih, memcmp_cons]
      by_cases hlt : x < y
      · rw [if_pos hlt, Std.compare_eq_lt.2 hlt]
        rfl
      · rw [if_neg hlt]
        by_cases hgt : y < x
        · rw [if_pos hgt, Std.compare_eq_gt.2 hgt]
          rfl
        · have heq : x = y := UInt8.le_antisymm (UInt8.not_lt.1 hgt) (UInt8.not_lt.1 hlt)
          rw [if_neg hgt, heq, Std.compare_self, Ordering.eq_then]
          unfold compareBy
          simp only [List.length_cons, Nat.add_lt_add_iff_right]

/-- **A column is compared as in SQL**, between values of one kind that are not NaN. -/
theorem compareKeyColumn_eq (hkind : a.kind = b.kind) (ha : isNaN a = false)
    (hb : isNaN b = false) : compareKeyColumn a b = sqlCompareValues a b := by
  have hnumber {n : Ordering} (h : n = compare (sqlNumber a) (sqlNumber b))
      (hbytes : sqlBytes a = sqlBytes b) : n = sqlCompareValues a b := by
    show n = (compare (sqlNumber a) (sqlNumber b)).then (compare (sqlBytes a) (sqlBytes b))
    rw [h, hbytes, Std.compare_self, Ordering.then_eq]
  cases a <;> cases b <;> try cases hkind
  case int32.int32 a b =>
    have hplace : compareBy (fun a b => decide (a < b)) a b = compare a.toInt b.toInt := by
      apply compareBy_eq <;> simp [Int32.lt_iff_toInt_lt]
    exact hnumber hplace rfl
  case int64.int64 a b =>
    have hplace : compareBy (fun a b => decide (a < b)) a b = compare a.toInt b.toInt := by
      apply compareBy_eq <;> simp [Int64.lt_iff_toInt_lt]
    exact hnumber hplace rfl
  case double.double a b =>
    have hplace : compareBy doubleLess a b = compare (doublePlace a) (doublePlace b) := by
      simp only [isNaN] at ha hb
      apply compareBy_eq <;> simp [doubleLess, ha, hb]
    refine hnumber (hplace.trans ?_) rfl
    simp only [isNaN] at ha hb
    simp [sqlNumber, ha, hb]
  case stringRef.stringRef a b => exact compareStrings_eq a b

theorem compareKeys_cons (cmp : SortKeyDesc → Option Ordering) (key : SortKeyDesc)
    (keys : List SortKeyDesc) :
    compareKeys cmp (key :: keys) = (match cmp key with
      | none => compareKeys cmp keys
      | some c => if c ≠ .eq then key.direct c else compareKeys cmp keys) := rfl

/-- **The keys are compared as in SQL**, where every column is. -/
theorem compareKeys_eq {cmp : SortKeyDesc → Option Ordering} {a b : List (Option Datum)}
    (h : ∀ key ∈ keys, (cmp key).elim .eq key.direct =
      sqlCompareCells key a[key.colIdx]?.join b[key.colIdx]?.join) :
    compareKeys cmp keys = sqlCompareRows keys a b := by
  induction keys with
  | nil => rfl
  | cons key keys ih =>
    have hkey := h key List.mem_cons_self
    have hrest := ih fun k hk => h k (List.mem_cons_of_mem _ hk)
    show _ = (sqlCompareCells key _ _).then (sqlCompareRows keys a b)
    rw [← hkey, ← hrest, compareKeys_cons]
    cases cmp key with
    | none => rfl
    | some c =>
      unfold SortKeyDesc.direct
      cases c <;> cases key.asc <;> rfl

end Agreement

/-! ## Rows that compare alike -/

/-- **A row that the code compares as SQL does**: no NULL among its values, and no NaN among its
keys. -/
structure Sortable (keys : List SortKeyDesc) (places : List TdcColumnDesc) (row : ChunkRow) :
    Prop where
  notNull : ∀ place ∈ places, row.1.nulls place.srcColIdx row.2 = 0
  notNaN : ∀ key ∈ keys, ∀ place, places[key.colIdx]? = some place →
    isNaN (row.1.get place.kind place.srcColIdx row.2) = false

section Rows

variable {keys : List SortKeyDesc} {places : List TdcColumnDesc} {row row' : ChunkRow}

theorem Sortable.sqlCell (h : Sortable keys places row) {place : TdcColumnDesc}
    (hplace : place ∈ places) :
    sqlCell row place = some (row.1.get place.kind place.srcColIdx row.2) :=
  if_pos (h.notNull place hplace)

/-- The cell of a key in a row. -/
theorem Sortable.cell (h : Sortable keys places row) (k : Nat) :
    (sqlRow places row)[k]?.join =
      places[k]?.map fun place => row.1.get place.kind place.srcColIdx row.2 := by
  unfold sqlRow
  rw [List.getElem?_map]
  cases hplace : places[k]? with
  | none => rfl
  | some place => exact h.sqlCell (List.mem_of_getElem? hplace)

/-- **Sortable rows** compare by the values of their key columns. -/
theorem compareKeys_rows (h : Sortable keys places row) (h' : Sortable keys places row')
    {cmp : SortKeyDesc → Option Ordering}
    (hcmp : ∀ key ∈ keys, cmp key = places[key.colIdx]?.map fun place =>
      compareKeyColumn (row.1.get place.kind place.srcColIdx row.2)
        (row'.1.get place.kind place.srcColIdx row'.2)) :
    compareKeys cmp keys = compareChunkRows keys places row row' := by
  apply compareKeys_eq
  intro key hkey
  rw [h.cell, h'.cell, hcmp key hkey]
  cases hplace : places[key.colIdx]? with
  | none => rfl
  | some place =>
    have hcolumn := @compareKeyColumn_eq (row.1.get place.kind place.srcColIdx row.2)
      (row'.1.get place.kind place.srcColIdx row'.2)
      ((DataChunk.get_kind _ _ _ _).trans (DataChunk.get_kind _ _ _ _).symm)
      (h.notNaN key hkey place hplace) (h'.notNaN key hkey place hplace)
    show key.direct (compareKeyColumn _ _) = key.direct (sqlCompareValues _ _)
    rw [hcolumn]

end Rows
end SortKeys
end PgYaap
