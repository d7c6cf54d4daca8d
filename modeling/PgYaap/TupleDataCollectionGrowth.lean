import PgYaap.HashJoinBuildMerge
import PgYaap.WhileLoops

/-! # The sizes of a growing row store

A row store that has no room for more rows is copied into a larger one. Its row capacity is
doubled and clamped to the rows that fit beside the heap bytes that are required; its heap grows
by a half, up to what the rows leave. The helpers for the two sizes and the check of the
allocator meet at the limit of a flat allocation, with different comparisons: the helpers allow
the limit itself, the check does not. -/
namespace PgYaap

open HashJoinBuild WhileLoops

namespace TupleDataCollection

/-- What follows on a success. -/
theorem bind_eq_of_eq_ok {α β ε : Type} {x : Except ε α} {a : α} (h : x = .ok a)
    (f : α → Except ε β) : (x >>= f) = f a := by
  rw [h]
  rfl

/-! ## The helpers -/

theorem checkFlatAllocSize_eq_ok {rowCapacity rowWidth heapCapacity : Nat} :
    checkFlatAllocSize rowCapacity rowWidth heapCapacity = .ok () ↔
      headerBytes + rowCapacity * rowWidth + heapCapacity < maxFlatAllocBytes := by
  unfold checkFlatAllocSize
  split
  · rename_i hlimit
    constructor
    · intro h
      cases h
    · intro h
      omega
  · rename_i hlimit
    exact ⟨fun _ => by omega, fun _ => rfl⟩

theorem allocate_eq {rowCapacity rowWidth heapCapacity : Nat} {t : TupleDataCollection}
    (h : allocate rowCapacity rowWidth heapCapacity = .ok t) :
    checkFlatAllocSize rowCapacity rowWidth heapCapacity = .ok () ∧
      t = ⟨rowWidth, rowCapacity, 0, heapCapacity, 0, fun _ => 0⟩ := by
  unfold allocate at h
  obtain ⟨u, hcheck, hpure⟩ := bind_eq_ok h
  exact ⟨hcheck, (Except.ok.inj hpure).symm⟩

/-- The rows that `TupleDataCollectionClampRowCapacity` clamps to. -/
def maxRows (rowWidth requiredHeapBytes : Nat) : Nat :=
  (2 ^ 64 + maxFlatAllocBytes - headerBytes - requiredHeapBytes) % 2 ^ 64 / rowWidth

theorem clampRowCapacity_eq_ok {proposed rowWidth required minimum c : Nat} :
    clampRowCapacity proposed rowWidth required minimum = .ok c ↔
      rowWidth ≠ 0 ∧ required < maxFlatAllocBytes ∧ minimum ≤ maxRows rowWidth required ∧
        c = min proposed (maxRows rowWidth required) := by
  unfold clampRowCapacity
  dsimp only
  rw [← maxRows]
  split
  · rename_i hwidth
    constructor
    · intro h
      cases h
    · exact fun h => absurd hwidth h.1
  split
  · rename_i hlimit
    constructor
    · intro h
      cases h
    · exact fun h => absurd h.2.1 (by omega)
  split
  · rename_i hrows
    constructor
    · intro h
      cases h
    · exact fun h => absurd h.2.2.1 (by omega)
  · rename_i hwidth hlimit hrows
    constructor
    · intro h
      exact ⟨hwidth, by omega, by omega, (Except.ok.inj h).symm⟩
    · rintro ⟨-, -, -, rfl⟩
      rfl

/-- The heap capacity that `TupleDataCollectionGrowHeapCapacity` aims at. -/
def nextHeapCapacity (old : TupleDataCollection) (required : Nat) : Nat :=
  max (old.heapCapacity + max (old.heapCapacity / 2) (1024 * 1024)) (old.heapUsed + required)

section Helpers

variable {layout : TupleDataLayout} {old t : TupleDataCollection} {required c h : Nat}

/-- A row store without a heap gets the default one. -/
theorem growHeapCapacity_eq_ok_of_eq_zero (hheap : old.heapCapacity = 0) :
    growHeapCapacity layout old c required = .ok h ↔
      h = defaultHeapCapacity layout c ∧
        headerBytes + c * old.rowWidth + h < maxFlatAllocBytes := by
  unfold growHeapCapacity
  rw [if_pos hheap]
  dsimp only
  constructor
  · intro hok
    obtain ⟨u, hcheck, hpure⟩ := bind_eq_ok hok
    obtain rfl := Except.ok.inj hpure
    exact ⟨rfl, checkFlatAllocSize_eq_ok.1 hcheck⟩
  · rintro ⟨rfl, hcheck⟩
    rw [bind_eq_of_eq_ok (checkFlatAllocSize_eq_ok.2 hcheck)]
    rfl

/-- A heap grows up to what the rows leave, the limit itself included. -/
theorem growHeapCapacity_eq_ok (hheap : old.heapCapacity ≠ 0) :
    growHeapCapacity layout old c required = .ok h ↔
      headerBytes + c * old.rowWidth < maxFlatAllocBytes ∧
        headerBytes + c * old.rowWidth + (old.heapUsed + required) ≤ maxFlatAllocBytes ∧
        h = min (nextHeapCapacity old required)
          (maxFlatAllocBytes - (headerBytes + c * old.rowWidth)) := by
  have hmax : maxFlatAllocBytes < uint32Max := by decide
  unfold growHeapCapacity
  rw [if_neg hheap]
  dsimp only
  rw [← nextHeapCapacity]
  split
  · rename_i hrows
    constructor
    · intro hok
      cases hok
    · rintro ⟨hroom, -, -⟩
      omega
  split
  · rename_i hrows hstrings
    constructor
    · intro hok
      cases hok
    · rintro ⟨-, hroom, -⟩
      omega
  · rename_i hrows hstrings
    constructor
    · intro hok
      have heq := Except.ok.inj hok
      exact ⟨by omega, by omega, by omega⟩
    · rintro ⟨hroom, hroom', rfl⟩
      congr 1
      omega

theorem defaultHeapCapacity_of_fixed (hfixed : layout.hasStringRef = false) (c : Nat) :
    defaultHeapCapacity layout c = 0 := by
  have hzero : (layout.columns.countP fun col => col.kind = .stringRef) = 0 := by
    rw [List.countP_eq_zero]
    intro col hcol hkind
    rw [TupleDataLayout.hasStringRef, List.any_eq_false] at hfixed
    exact hfixed col hcol hkind
  rw [defaultHeapCapacity, hzero]
  omega

theorem defaultHeapCapacity_pos (hstring : layout.hasStringRef = true) (hc : 0 < c) :
    0 < defaultHeapCapacity layout c := by
  have hpos : 0 < layout.columns.countP fun col => col.kind = .stringRef := by
    rw [List.countP_pos_iff]
    exact List.any_eq_true.1 hstring
  have hmul := Nat.mul_pos hc hpos
  have hmax : 0 < uint32Max := by decide
  rw [defaultHeapCapacity]
  omega

/-! ## Growing -/

/-- **The sizes of a row store that has grown**, with the rows of the old one. -/
structure Grown (layout : TupleDataLayout) (old : TupleDataCollection) (required : Nat)
    (t : TupleDataCollection) : Prop where
  clamped : clampRowCapacity (max (old.rowCapacity * 2 % 2 ^ 32) (old.rowCount + 1))
    layout.rowWidth required (old.rowCount + 1) = .ok t.rowCapacity
  grownHeap : growHeapCapacity layout old t.rowCapacity required = .ok t.heapCapacity
  checked : checkFlatAllocSize t.rowCapacity layout.rowWidth t.heapCapacity = .ok ()
  rowWidth : t.rowWidth = layout.rowWidth
  rowCount : t.rowCount = old.rowCount

theorem Grown.rowCount_lt (hgrown : Grown layout old required t) :
    t.rowCount < t.rowCapacity := by
  obtain ⟨-, -, hmin, heq⟩ := clampRowCapacity_eq_ok.1 hgrown.clamped
  have hcount := hgrown.rowCount
  omega

theorem Grown.rowCapacity_lt (hgrown : Grown layout old required t) :
    t.rowCapacity < maxFlatAllocBytes := by
  have hwidth := (clampRowCapacity_eq_ok.1 hgrown.clamped).1
  have hcheck := checkFlatAllocSize_eq_ok.1 hgrown.checked
  have hle : t.rowCapacity * 1 ≤ t.rowCapacity * layout.rowWidth :=
    Nat.mul_le_mul_left _ (Nat.pos_of_ne_zero hwidth)
  omega

/-- **A heap grows in every turn**: where the rows leave less than it aims at, it takes all of
that, and the check refuses it. -/
theorem Grown.heapCapacity_lt (hgrown : Grown layout old required t)
    (hwidth : old.rowWidth = layout.rowWidth) (hheap : old.heapCapacity ≠ 0) :
    old.heapCapacity < t.heapCapacity ∧ t.heapCapacity < maxFlatAllocBytes := by
  obtain ⟨hroom, -, heq⟩ := (growHeapCapacity_eq_ok hheap).1 hgrown.grownHeap
  have hcheck := checkFlatAllocSize_eq_ok.1 hgrown.checked
  rw [hwidth] at hroom heq
  unfold nextHeapCapacity at heq
  omega

theorem Grown.heapCapacity_eq (hgrown : Grown layout old required t)
    (hheap : old.heapCapacity = 0) :
    t.heapCapacity = defaultHeapCapacity layout t.rowCapacity :=
  ((growHeapCapacity_eq_ok_of_eq_zero hheap).1 hgrown.grownHeap).1

/-! ## The rank of a growth loop -/

/-- There is room for `count` rows with the heap bytes that are required. -/
def Fits (count required : Nat) (t : TupleDataCollection) : Prop :=
  t.rowCount + count ≤ t.rowCapacity ∧ t.hasSpaceForAppend required = true

instance (count required : Nat) (t : TupleDataCollection) : Decidable (Fits count required t) :=
  inferInstanceAs (Decidable (_ ∧ _))

/-- What every turn of a growth loop lowers: the heap grows towards the limit; a row store
without strings has no heap, and there the rows do. -/
def growRank (layout : TupleDataLayout) (count required : Nat) (t : TupleDataCollection) : Nat :=
  if Fits count required t then 0
  else if t.heapCapacity ≠ 0 then maxFlatAllocBytes + 1 - t.heapCapacity
  else if layout.hasStringRef = true then maxFlatAllocBytes + 2
  else maxFlatAllocBytes + 1 - min t.rowCapacity maxFlatAllocBytes

/-- **A turn lowers the rank**, unless a row store without strings stays as large as it was. -/
theorem Grown.growRank_lt (hgrown : Grown layout old required t) {count : Nat}
    (hwidth : old.rowWidth = layout.rowWidth) (hneeds : ¬ Fits count required old)
    (hmore : layout.hasStringRef = false → old.heapCapacity = 0 →
      Fits count required t ∨ old.rowCapacity < t.rowCapacity) :
    growRank layout count required t < growRank layout count required old := by
  have hrows := hgrown.rowCapacity_lt
  by_cases hheap : old.heapCapacity = 0
  · have hdefault := hgrown.heapCapacity_eq hheap
    cases hstring : layout.hasStringRef with
    | true =>
      have hpos := defaultHeapCapacity_pos hstring (Nat.zero_lt_of_lt hgrown.rowCount_lt)
      unfold growRank
      rw [if_neg hneeds, if_neg (not_not.2 hheap), if_pos hstring,
        if_pos (show t.heapCapacity ≠ 0 by omega)]
      split_ifs <;> omega
    | false =>
      have hzero := defaultHeapCapacity_of_fixed hstring t.rowCapacity
      have hcase := hmore hstring hheap
      unfold growRank
      rw [if_neg hneeds, if_neg (not_not.2 hheap), hstring]
      by_cases hfits : Fits count required t
      · rw [if_pos hfits, if_neg Bool.false_ne_true]
        omega
      · rw [if_neg hfits, if_neg (show ¬ t.heapCapacity ≠ 0 by omega), if_neg Bool.false_ne_true,
          if_neg Bool.false_ne_true]
        have hgrew := hcase.resolve_left hfits
        omega
  · obtain ⟨hless, hlimit⟩ := hgrown.heapCapacity_lt hwidth hheap
    unfold growRank
    rw [if_neg hneeds, if_pos hheap, if_pos (show t.heapCapacity ≠ 0 by omega)]
    split_ifs <;> omega

end Helpers
end TupleDataCollection
end PgYaap
