import PgYaap.AggregateTableCapacity
import PgYaap.CrossProduct
import PgYaap.PayloadStores

/-! # Loops that grow until it fits

The aggregate, the sort, the output sink and the hash join append to row stores that they grow
in a loop, as long as the rows that come next do not fit. What the helpers return is refused by
the allocator exactly where the heap takes all that the rows leave, and is too small exactly
where a row store without a heap gets the default one. A loop for a single row ends. The loop
for a batch does not end where a row store without strings cannot hold the whole batch below the
limit, but can hold a row of it: it is copied into one of the same size, over and over. -/
namespace PgYaap

open ColumnSlots AggregateStates HashJoinBuild ProbedTables TupleDataCollection WhileLoops
open AggregateHashTable

namespace GrowthLoops

/-! ## What the helpers return -/

/-- The rows have the width of the layout, and the heap has their strings and nothing else. -/
structure Content (layout : AggregateLayout) (t : TupleDataCollection) : Prop where
  rowWidth : t.rowWidth = layout.rowWidth
  heapUsed : t.heapUsed = rowsHeapBytes layout.toTupleDataLayout t t.rowCount
  heap_le : t.heapUsed ≤ t.heapCapacity

/-- **Sizes that the helpers return fit**: the row store is allocated, and after the rows are
copied it has room for the rows and the heap bytes that were asked for. -/
def SizesFit (owner : String) (layout : AggregateLayout) (old : TupleDataCollection)
    (proposed minimum required : Nat) : Prop :=
  ∀ c h, clampRowCapacity proposed layout.rowWidth required minimum = .ok c →
    growHeapCapacity layout.toTupleDataLayout old c required = .ok h →
    minimum ≤ c ∧ ∃ new copied, allocate c layout.rowWidth h = .ok new ∧
      (List.range old.rowCount).foldlM (growCopyRow owner layout old) new = .ok copied ∧
      copied.hasSpaceForAppend required = true

/-- The rows can be clamped. -/
structure Clamps (layout : AggregateLayout) (minimum required : Nat) : Prop where
  width : layout.rowWidth ≠ 0
  below : required < maxFlatAllocBytes
  rows : minimum ≤ maxRows layout.rowWidth required

/-- The bytes of the header and of the clamped rows. -/
def rowBytes (layout : AggregateLayout) (proposed required : Nat) : Nat :=
  headerBytes + min proposed (maxRows layout.rowWidth required) * layout.rowWidth

/-- **The heap takes all that the rows leave**: what it holds and is to hold fits, but what it
aims at reaches the limit. -/
structure LimitReached (layout : AggregateLayout) (old : TupleDataCollection)
    (proposed minimum required : Nat) : Prop extends Clamps layout minimum required where
  heap : old.heapCapacity ≠ 0
  room : rowBytes layout proposed required < maxFlatAllocBytes
  fits : rowBytes layout proposed required + (old.heapUsed + required) ≤ maxFlatAllocBytes
  limit : maxFlatAllocBytes ≤ rowBytes layout proposed required + nextHeapCapacity old required

/-- **The default heap is too small**: it depends on the rows only. -/
structure DefaultTooSmall (layout : AggregateLayout) (old : TupleDataCollection)
    (proposed minimum required : Nat) : Prop extends Clamps layout minimum required where
  heap : old.heapCapacity = 0
  room : rowBytes layout proposed required + defaultHeapCapacity layout.toTupleDataLayout
    (min proposed (maxRows layout.rowWidth required)) < maxFlatAllocBytes
  small : defaultHeapCapacity layout.toTupleDataLayout
    (min proposed (maxRows layout.rowWidth required)) < required

section Sizes

variable {owner : String} {layout : AggregateLayout} {old : TupleDataCollection}
  {proposed minimum required c h : Nat}

theorem Clamps.clamped (hclamps : Clamps layout minimum required) (proposed : Nat) :
    clampRowCapacity proposed layout.rowWidth required minimum =
      .ok (min proposed (maxRows layout.rowWidth required)) :=
  clampRowCapacity_eq_ok.2 ⟨hclamps.width, hclamps.below, hclamps.rows, rfl⟩

/-- Sizes that pass the check and have the bytes in the heap fit. -/
theorem fits_of_sizes (hcontent : Content layout old) (hmin : old.rowCount < c)
    (hcheck : headerBytes + c * layout.rowWidth + h < maxFlatAllocBytes)
    (hheap : old.heapUsed ≤ h) (hrequired : required = 0 ∨ old.heapUsed + required ≤ h) :
    ∃ new copied, allocate c layout.rowWidth h = .ok new ∧
      (List.range old.rowCount).foldlM (growCopyRow owner layout old) new = .ok copied ∧
      copied.hasSpaceForAppend required = true := by
  have hnew : allocate c layout.rowWidth h =
      .ok ⟨layout.rowWidth, c, 0, h, 0, fun _ => 0⟩ := by
    rw [allocate, bind_eq_of_eq_ok (checkFlatAllocSize_eq_ok.2 hcheck)]
    rfl
  have hused := hcontent.heapUsed
  obtain ⟨copied, hcopied⟩ := @growCopyRows_of_fits layout old
    ⟨layout.rowWidth, c, 0, h, 0, fun _ => 0⟩ owner old.rowCount
    (by dsimp only; omega) (by dsimp only; omega)
  refine ⟨_, copied, hnew, hcopied, ?_⟩
  obtain ⟨bytes, rfl⟩ := growCopyRows_eq _ hcopied
  rw [hasSpaceForAppend_iff]
  dsimp only
  omega

/-- The heap that has grown fits, unless it reaches the limit. -/
theorem fits_of_heap (hcontent : Content layout old) (hheap : old.heapCapacity ≠ 0)
    (hmin : old.rowCount < c) (hgrow : growHeapCapacity layout.toTupleDataLayout old c required =
      .ok h)
    (hlimit : headerBytes + c * layout.rowWidth + nextHeapCapacity old required <
      maxFlatAllocBytes) :
    ∃ new copied, allocate c layout.rowWidth h = .ok new ∧
      (List.range old.rowCount).foldlM (growCopyRow owner layout old) new = .ok copied ∧
      copied.hasSpaceForAppend required = true := by
  obtain ⟨-, -, heq⟩ := (growHeapCapacity_eq_ok hheap).1 hgrow
  rw [hcontent.rowWidth] at heq
  have hnext : h = nextHeapCapacity old required := by omega
  have haims : old.heapUsed + required ≤ nextHeapCapacity old required := Nat.le_max_right _ _
  refine fits_of_sizes hcontent hmin (by omega) (by omega) (Or.inr (by omega))

/-- **The sizes fit** exactly where neither kind of failure is met. -/
theorem sizesFit_iff (hcontent : Content layout old) (hcount : old.rowCount < minimum)
    (hproposed : minimum ≤ proposed) :
    SizesFit owner layout old proposed minimum required ↔
      ¬ LimitReached layout old proposed minimum required ∧
        ¬ DefaultTooSmall layout old proposed minimum required := by
  constructor
  · intro hfit
    refine ⟨fun hlimit => ?_, fun hsmall => ?_⟩
    · have hrow := hlimit.limit
      have hgrow := (@growHeapCapacity_eq_ok layout.toTupleDataLayout old required
        (min proposed (maxRows layout.rowWidth required)) _ hlimit.heap).2
        ⟨by rw [hcontent.rowWidth]; exact hlimit.room,
          by rw [hcontent.rowWidth]; exact hlimit.fits, rfl⟩
      obtain ⟨-, new, copied, hnew, -⟩ := hfit _ _ (hlimit.toClamps.clamped proposed) hgrow
      have hcheck := checkFlatAllocSize_eq_ok.1 (allocate_eq hnew).1
      rw [hcontent.rowWidth] at hcheck
      unfold rowBytes at hrow
      omega
    · have hgrow := (@growHeapCapacity_eq_ok_of_eq_zero layout.toTupleDataLayout old required
        (min proposed (maxRows layout.rowWidth required)) _ hsmall.heap).2
        ⟨rfl, by rw [hcontent.rowWidth]; exact hsmall.room⟩
      obtain ⟨-, new, copied, hnew, hcopied, hspace⟩ :=
        hfit _ _ (hsmall.toClamps.clamped proposed) hgrow
      obtain ⟨-, rfl⟩ := allocate_eq hnew
      obtain ⟨bytes, rfl⟩ := growCopyRows_eq _ hcopied
      have hless := hsmall.small
      rw [hasSpaceForAppend_iff] at hspace
      dsimp only at hspace
      omega
  · rintro ⟨hlimit, hsmall⟩ c h hclamp hgrow
    obtain ⟨hwidth, hrequired, hrows, rfl⟩ := clampRowCapacity_eq_ok.1 hclamp
    have hclamps : Clamps layout minimum required := ⟨hwidth, hrequired, hrows⟩
    have hle : minimum ≤ min proposed (maxRows layout.rowWidth required) := by omega
    refine ⟨hle, ?_⟩
    by_cases hheap : old.heapCapacity = 0
    · obtain ⟨rfl, hcheck⟩ := (growHeapCapacity_eq_ok_of_eq_zero hheap).1 hgrow
      rw [hcontent.rowWidth] at hcheck
      have hused := hcontent.heap_le
      have hlarge : required ≤ defaultHeapCapacity layout.toTupleDataLayout
          (min proposed (maxRows layout.rowWidth required)) := by
        by_contra hless
        exact hsmall ⟨hclamps, hheap, hcheck, by omega⟩
      exact fits_of_sizes hcontent (by omega) hcheck (by omega) (by omega)
    · obtain ⟨hroom, hfits, -⟩ := (growHeapCapacity_eq_ok hheap).1 hgrow
      rw [hcontent.rowWidth] at hroom hfits
      refine fits_of_heap hcontent hheap (by omega) hgrow ?_
      by_contra hmore
      exact hlimit ⟨hclamps, hheap, hroom, hfits, by unfold rowBytes; omega⟩

end Sizes

/-! ## The loop for a batch -/

/-- **The loop goes on forever**: a row store without strings takes a row more below the limit,
but not those of the whole call, and the directory takes its rows. -/
structure Spins (layout : AggregateLayout) (call : TableCall) (t : TupleDataCollection) : Prop where
  needs : call.needsGrow layout t = true
  fixed : layout.hasStringRef = false
  heap : t.heapCapacity = 0
  row : t.rowCount < maxRows layout.rowWidth 0
  batch : maxRows layout.rowWidth 0 < t.rowCount + (call.groups layout).length
  below : headerBytes + maxRows layout.rowWidth 0 * layout.rowWidth ≠ maxFlatAllocBytes
  slots : t.rowCount ≤ maxCapacity

theorem doubleUntil_le (needed fuel : Nat) : ∀ pow2, doubleUntil needed fuel pow2 ≤
    2 ^ fuel * pow2 := by
  induction fuel with
  | zero =>
    intro pow2
    rw [pow_zero, Nat.one_mul]
    exact Nat.le_refl _
  | succ fuel ih =>
    intro pow2
    have hdouble : 2 ^ fuel * (pow2 <<< 1) = 2 ^ (fuel + 1) * pow2 := by
      rw [Nat.shiftLeft_eq]
      ring
    rw [doubleUntil]
    split
    · rw [← hdouble]
      exact ih _
    · exact Nat.le_mul_of_pos_left _ (by positivity)

theorem chooseCapacity_le (maxGroups : Nat) : chooseCapacity maxGroups ≤ maxCapacity :=
  doubleUntil_le _ 22 1

theorem maxRows_zero (rowWidth : Nat) :
    maxRows rowWidth 0 = (maxFlatAllocBytes - headerBytes) / rowWidth := rfl

section Batch

variable {owner : String} {layout : AggregateLayout} {call : TableCall}
  {t t' : TupleDataCollection} {s s' : Table} {rows : List (StoredRow layout)}

/-- What the condition of the loop asks. -/
theorem needsGrow_eq_false_iff : call.needsGrow layout t = false ↔
    Fits (call.groups layout).length (call.requiredHeapBytes layout) t := by
  cases call with
  | sink aarch64 chunk inputs =>
    rw [TableCall.groups, List.length_map, ← @List.length_map _ _ inputs BatchProbeInput.rowIdx]
    exact partitionNeedsGrowForChunkBatch_eq_false
  | combine src srcRow =>
    rw [TableCall.needsGrow, partitionNeedsGrowForRow_eq_false]
    constructor
    · intro hspace
      exact ⟨(hasSpaceForAppend_iff.1 hspace).1, hspace⟩
    · exact fun hfits => hfits.2

theorem stringColumns_eq_nil {layout : TupleDataLayout} (hfixed : layout.hasStringRef = false) :
    (layout.columns.filter fun col => col.kind = .stringRef) = [] := by
  rw [List.filter_eq_nil_iff]
  intro col hcol
  rw [TupleDataLayout.hasStringRef, List.any_eq_false] at hfixed
  exact hfixed col hcol

theorem requiredHeapBytesForChunkRow_of_fixed {layout : TupleDataLayout}
    (hfixed : layout.hasStringRef = false) (chunk : DataChunk) (rowIdx : Nat) :
    requiredHeapBytesForChunkRow layout chunk rowIdx = 0 := by
  rw [requiredHeapBytesForChunkRow, stringColumns_eq_nil hfixed]
  rfl

theorem requiredHeapBytesForRow_of_fixed {layout : TupleDataLayout}
    (hfixed : layout.hasStringRef = false) (t : TupleDataCollection) (rowIdx : Nat) :
    requiredHeapBytesForRow layout t rowIdx = 0 := by
  rw [requiredHeapBytesForRow, stringColumns_eq_nil hfixed]
  rfl

theorem requiredHeapBytes_of_fixed (hfixed : layout.hasStringRef = false) (call : TableCall) :
    call.requiredHeapBytes layout = 0 := by
  cases call with
  | sink aarch64 chunk inputs =>
    have hzero : ((inputs.map BatchProbeInput.rowIdx).map
        (requiredHeapBytesForChunkRow layout.toTupleDataLayout chunk)).sum = 0 := by
      rw [List.sum_eq_zero_iff]
      intro bytes hbytes
      obtain ⟨rowIdx, -, rfl⟩ := List.mem_map.1 hbytes
      exact requiredHeapBytesForChunkRow_of_fixed hfixed chunk rowIdx
    rw [TableCall.requiredHeapBytes, requiredHeapBytesForChunkRows, hzero]
    rfl
  | combine src srcRow => exact requiredHeapBytesForRow_of_fixed hfixed src srcRow

/-- The row store passed the check when it was allocated. -/
def Allocated (t : TupleDataCollection) : Prop :=
  headerBytes + t.rowCapacity * t.rowWidth + t.heapCapacity < maxFlatAllocBytes

theorem Allocated.rowCapacity_le (h : Allocated t) (hwidth : t.rowWidth ≠ 0) :
    t.rowCapacity ≤ maxRows t.rowWidth 0 := by
  rw [maxRows_zero]
  apply (Nat.le_div_iff_mul_le (Nat.pos_of_ne_zero hwidth)).2
  unfold Allocated at h
  omega

/-- **A row store that stays as large as it was spins**, where it has no strings. -/
theorem spins_of_stays {aht' : AggregateHashTable} (haligned : layout.rowWidth % 8 = 0)
    (h : Represents layout s.1 s.2 rows) (halloc : Allocated s.2)
    (hneeds : call.needsGrow layout s.2 = true)
    (hok : growTdc owner layout s.2 (call.requiredHeapBytes layout) = .ok (aht', t'))
    (hfixed : layout.hasStringRef = false) (hheap : s.2.heapCapacity = 0)
    (hfits : ¬ Fits (call.groups layout).length (call.requiredHeapBytes layout) t')
    (hstays : t'.rowCapacity ≤ s.2.rowCapacity) : Spins layout call s.2 := by
  obtain ⟨hstore, -⟩ := growTdc_eq_ok.1 hok
  obtain ⟨hgrown, -⟩ := growRowStore_grown hstore
  have hslots := (h.growTdc_iff hstore).1 ⟨aht', hok⟩
  have hchoose := chooseCapacity_le t'.rowCapacity
  rw [requiredHeapBytes_of_fixed hfixed] at hgrown hfits
  obtain ⟨hwidth, -, hmin, hcapacity⟩ := clampRowCapacity_eq_ok.1 hgrown.clamped
  have hold := halloc.rowCapacity_le (by rw [h.holds.rowWidth]; exact hwidth)
  have hcheck := checkFlatAllocSize_eq_ok.1 hgrown.checked
  rw [h.holds.rowWidth] at hold
  -- a row has eight bytes or more, so that doubling the row capacity does not wrap
  have hdouble : s.2.rowCapacity * 2 < 2 ^ 32 := by
    have hle : s.2.rowCapacity * 2 ≤ s.2.rowCapacity * layout.rowWidth :=
      Nat.mul_le_mul_left _ (by omega)
    unfold Allocated at halloc
    rw [h.holds.rowWidth] at halloc
    unfold maxFlatAllocBytes at halloc
    omega
  rw [Nat.mod_eq_of_lt hdouble] at hcapacity
  have hmax : t'.rowCapacity = maxRows layout.rowWidth 0 := by omega
  have hcount := hgrown.rowCount
  refine ⟨hneeds, hfixed, hheap, by omega, ?_, ?_, hslots.trans hchoose⟩
  · by_contra hbatch
    refine hfits ⟨by omega, hasSpaceForAppend_iff.2 ⟨hgrown.rowCount_lt, Or.inl rfl⟩⟩
  · rw [hmax] at hcheck
    omega

/-- A row store that has grown only spins where the old one does. -/
theorem Spins.of_grown {aht' : AggregateHashTable} (hspins : Spins layout call t')
    (h : Represents layout s.1 s.2 rows) (hneeds : call.needsGrow layout s.2 = true)
    (hok : growTdc owner layout s.2 (call.requiredHeapBytes layout) = .ok (aht', t')) :
    Spins layout call s.2 := by
  obtain ⟨hstore, -⟩ := growTdc_eq_ok.1 hok
  obtain ⟨hgrown, -⟩ := growRowStore_grown hstore
  have hcount := hgrown.rowCount
  have hheap : s.2.heapCapacity = 0 := by
    by_contra hheap
    have hless := (hgrown.heapCapacity_lt h.holds.rowWidth hheap).1
    have hzero := hspins.heap
    omega
  have hrow := hspins.row
  have hbatch := hspins.batch
  have hslots := hspins.slots
  rw [hcount] at hrow hbatch hslots
  exact ⟨hneeds, hspins.fixed, hheap, hrow, hbatch, hspins.below, hslots⟩

/-- What the turns of a loop that does not spin keep. -/
structure Turning (layout : AggregateLayout) (call : TableCall) (rows : List (StoredRow layout))
    (s : Table) : Prop where
  represents : Represents layout s.1 s.2 rows
  allocated : Allocated s.2
  notSpins : ¬ Spins layout call s.2

theorem turning_of_turn (h : Represents layout s.1 s.2 rows) (hnot : ¬ Spins layout call s.2)
    (hneeds : call.needsGrow layout s.2 = true)
    (hok : growTdc owner layout s.2 (call.requiredHeapBytes layout) = .ok s') :
    Turning layout call rows s' := by
  obtain ⟨aht', t'⟩ := s'
  obtain ⟨hstore, -⟩ := growTdc_eq_ok.1 hok
  obtain ⟨hgrown, -⟩ := growRowStore_grown hstore
  refine ⟨h.grow hok, ?_, fun hspins => hnot (hspins.of_grown h hneeds hok)⟩
  have hcheck := checkFlatAllocSize_eq_ok.1 hgrown.checked
  rw [← hgrown.rowWidth] at hcheck
  exact hcheck

/-- **The loop ends** where the row store does not spin. -/
theorem ends_of_not_spins (haligned : layout.rowWidth % 8 = 0)
    (h : Represents layout s.1 s.2 rows) (hnot : ¬ Spins layout call s.2) :
    Ends (fun s : Table => call.needsGrow layout s.2)
      (fun s => growTdc owner layout s.2 (call.requiredHeapBytes layout)) s := by
  by_cases hneeds : call.needsGrow layout s.2 = true
  · cases hok : growTdc owner layout s.2 (call.requiredHeapBytes layout) with
    | error e => exact ends_of_error hok
    | ok s' =>
      apply ends_of_ok hok
      refine @ends_of_rank _ _ _ _ _ (Turning layout call rows) (fun s => growRank
        layout.toTupleDataLayout (call.groups layout).length (call.requiredHeapBytes layout) s.2)
        ?_ (turning_of_turn h hnot hneeds hok)
      intro s s' hs hneeds hok
      refine ⟨turning_of_turn hs.represents hs.notSpins hneeds hok, ?_⟩
      obtain ⟨aht', t'⟩ := s'
      obtain ⟨hstore, -⟩ := growTdc_eq_ok.1 hok
      refine (growRowStore_grown hstore).1.growRank_lt hs.represents.holds.rowWidth ?_ ?_
      · intro hfits
        rw [needsGrow_eq_false_iff.2 hfits] at hneeds
        cases hneeds
      · intro hfixed hheap
        by_contra hstays
        rw [not_or] at hstays
        exact hs.notSpins (spins_of_stays haligned hs.represents hs.allocated hneeds hok hfixed
          hheap hstays.1 (by omega))
  · exact ends_of_false (Bool.eq_false_iff.2 hneeds)

/-- **A turn of a loop that spins** leaves a row store that spins. -/
theorem Spins.turn (hspins : Spins layout call s.2) (h : Represents layout s.1 s.2 rows) :
    ∃ s', growTdc owner layout s.2 (call.requiredHeapBytes layout) = .ok s' ∧
      Represents layout s'.1 s'.2 rows ∧ Spins layout call s'.2 := by
  have hrow := hspins.row
  have hbelow := hspins.below
  have hwidth : layout.rowWidth ≠ 0 := by
    intro hzero
    rw [hzero, maxRows_zero, Nat.div_zero] at hrow
    omega
  have hmul : maxRows layout.rowWidth 0 * layout.rowWidth ≤ maxFlatAllocBytes - headerBytes := by
    rw [maxRows_zero]
    exact Nat.div_mul_le_self _ _
  rw [requiredHeapBytes_of_fixed hspins.fixed]
  obtain ⟨c, hc⟩ : ∃ c, c = min (max (s.2.rowCapacity * 2 % 2 ^ 32) (s.2.rowCount + 1))
    (maxRows layout.rowWidth 0) := ⟨_, rfl⟩
  have hclamp : clampRowCapacity (max (s.2.rowCapacity * 2 % 2 ^ 32) (s.2.rowCount + 1))
      layout.rowWidth 0 (s.2.rowCount + 1) = .ok c :=
    clampRowCapacity_eq_ok.2 ⟨hwidth, by decide, hrow, hc⟩
  have hbytes : headerBytes + c * layout.rowWidth + 0 < maxFlatAllocBytes := by
    have hheader : headerBytes < maxFlatAllocBytes := by decide
    rcases Nat.lt_or_eq_of_le (show c ≤ maxRows layout.rowWidth 0 by omega) with hless | heq
    · have hlt := Nat.mul_lt_mul_of_pos_right hless (Nat.pos_of_ne_zero hwidth)
      omega
    · rw [heq]
      omega
  have hgrow : growHeapCapacity layout.toTupleDataLayout s.2 c 0 = .ok 0 := by
    refine (growHeapCapacity_eq_ok_of_eq_zero hspins.heap).2
      ⟨(defaultHeapCapacity_of_fixed hspins.fixed c).symm, ?_⟩
    rw [h.holds.rowWidth]
    exact hbytes
  obtain ⟨t', hstore, hcapacity, hheap⟩ := growRowStore_of_sizes owner hclamp hgrow
    (checkFlatAllocSize_eq_ok.2 hbytes) (by omega)
    (by rw [rowsHeapBytes_of_fixed hspins.fixed])
  have hcount := (growRowStore_grown hstore).1.rowCount
  have hbatch := hspins.batch
  have hslots := hspins.slots
  have hdirectory : s.2.rowCount ≤ chooseCapacity t'.rowCapacity := by
    rcases lt_chooseCapacity t'.rowCapacity with hlt | hmax
    · omega
    · omega
  obtain ⟨aht', hok⟩ := (h.growTdc_iff hstore).2 hdirectory
  refine ⟨(aht', t'), hok, h.grow hok, ?_, hspins.fixed, hheap, ?_, ?_, hbelow, ?_⟩
  · by_contra hneeds
    have hfits := needsGrow_eq_false_iff.1 (Bool.eq_false_iff.2 hneeds)
    have hroom : t'.rowCount + (call.groups layout).length ≤ t'.rowCapacity := hfits.1
    omega
  · rw [hcount]
    exact hrow
  · rw [hcount]
    exact hbatch
  · rw [hcount]
    exact hslots

/-- **The loop for a batch ends exactly where the row store does not spin.** -/
theorem ends_iff_not_spins (haligned : layout.rowWidth % 8 = 0)
    (h : Represents layout s.1 s.2 rows) :
    Ends (fun s : Table => call.needsGrow layout s.2)
      (fun s => growTdc owner layout s.2 (call.requiredHeapBytes layout)) s ↔
      ¬ Spins layout call s.2 := by
  refine ⟨fun hends hspins => ?_, ends_of_not_spins haligned h⟩
  refine @not_ends_of_invariant _ _ _ _ _ (fun s : Table => Represents layout s.1 s.2 rows ∧
    Spins layout call s.2) ?_ ⟨h, hspins⟩ hends
  intro s hs
  obtain ⟨s', hok, hrepresents, hspins'⟩ := hs.2.turn hs.1
  exact ⟨hs.2.needs, s', hok, hrepresents, hspins'⟩

end Batch

/-! ## The loops for a row -/

section Row

variable {layout : TupleDataLayout} {old t : TupleDataCollection} {required : Nat}

/-- **A turn lowers the rank**, where a single row is to fit: after it there is room for a row,
and a row without strings needs no more. -/
theorem growRank_one_lt (hgrown : Grown layout old required t)
    (hwidth : old.rowWidth = layout.rowWidth) (hneeds : old.hasSpaceForAppend required = false)
    (hrequired : layout.hasStringRef = false → required = 0) :
    growRank layout 1 required t < growRank layout 1 required old := by
  refine hgrown.growRank_lt hwidth ?_ ?_
  · intro hfits
    rw [hfits.2] at hneeds
    cases hneeds
  · intro hfixed _
    exact Or.inl ⟨hgrown.rowCount_lt,
      hasSpaceForAppend_iff.2 ⟨hgrown.rowCount_lt, Or.inl (hrequired hfixed)⟩⟩

/-- **A loop that grows a row store for a row ends.** -/
theorem ends_of_grown {grow : TupleDataCollection → Except String TupleDataCollection}
    (hgrow : ∀ old t, old.rowWidth = layout.rowWidth → grow old = .ok t →
      Grown layout old required t)
    (hrequired : layout.hasStringRef = false → required = 0)
    (hwidth : old.rowWidth = layout.rowWidth) :
    Ends (fun t : TupleDataCollection => !t.hasSpaceForAppend required) grow old := by
  refine @ends_of_rank _ _ _ _ _ (fun t => t.rowWidth = layout.rowWidth)
    (growRank layout 1 required) ?_ hwidth
  intro t t' ht hneeds hok
  rw [Bool.not_eq_true'] at hneeds
  have hgrown := hgrow t t' ht hok
  exact ⟨hgrown.rowWidth, growRank_one_lt hgrown ht hneeds hrequired⟩

/-- A loop whose turns make room for a row ends after one of them. -/
theorem ends_of_rowCount_lt {grow : TupleDataCollection → Except String TupleDataCollection}
    (hgrow : ∀ old t, grow old = .ok t → t.rowCount < t.rowCapacity) :
    Ends (fun t : TupleDataCollection => decide (t.rowCapacity ≤ t.rowCount)) grow old := by
  cases hok : grow old with
  | error e => exact ends_of_error hok
  | ok t =>
    apply ends_of_ok hok
    apply ends_of_false
    have hroom := hgrow old t hok
    exact decide_eq_false (by omega)

end Row

/-! ### The hash join -/

section Join

variable {desc : HashJoinBuildDesc} {layout : TupleDataLayout} {old t : TupleDataCollection}
  {hasSpace : Bool} {required keyBytes rowBytes : Nat}

theorem growJoinTdc_grown (h : growJoinTdc layout old required = .ok t) :
    Grown layout old required t := by
  unfold growJoinTdc at h
  obtain ⟨newCapacity, hclamp, h⟩ := bind_eq_ok h
  obtain ⟨heapCapacity, hheap, h⟩ := bind_eq_ok h
  obtain ⟨new, hnew, h⟩ := bind_eq_ok h
  obtain ⟨hcheck, rfl⟩ := allocate_eq hnew
  obtain ⟨heapUsed, rows, rfl⟩ := @PayloadStores.growCopyRows_eq _ _ _ _
    (PayloadStores.copyBuildRow_inPlace layout) _ _ h
  exact ⟨hclamp, hheap, hcheck, rfl, Nat.zero_add _⟩

/-- One of the two row stores in a turn of the loop. -/
theorem growUnless_rank (hspace : hasSpace = old.hasSpaceForAppend required)
    (hwidth : old.rowWidth = layout.rowWidth)
    (hrequired : layout.hasStringRef = false → required = 0)
    (h : growUnless hasSpace layout old required = .ok t) :
    t.rowWidth = layout.rowWidth ∧
      growRank layout 1 required t ≤ growRank layout 1 required old ∧
      (hasSpace = false → growRank layout 1 required t < growRank layout 1 required old) := by
  unfold growUnless at h
  cases hasSpace with
  | true =>
    obtain rfl := Except.ok.inj h
    exact ⟨hwidth, Nat.le_refl _, fun hfalse => by cases hfalse⟩
  | false =>
    have hgrown := growJoinTdc_grown h
    have hless := growRank_one_lt hgrown hwidth hspace.symm hrequired
    exact ⟨hgrown.rowWidth, hless.le, fun _ => hless⟩

/-- The condition of the loops of `EnsureJoinLocalCapacity` and `EnsureJoinGlobalCapacity`, for the
heap bytes that a row requires. -/
def joinNeedsGrow (desc : HashJoinBuildDesc) (keyBytes rowBytes : Nat) (t : BuildTables) : Bool :=
  !t.buildKeys.hasSpaceForAppend keyBytes ||
    (!desc.buildRowsUseKeys && !t.ownRows.hasSpaceForAppend rowBytes)

/-- Their body. -/
def growJoin (desc : HashJoinBuildDesc) (keyBytes rowBytes : Nat) (t : BuildTables) :
    Except String BuildTables := do
  let keys ← growUnless (!!t.buildKeys.hasSpaceForAppend keyBytes) desc.buildKeyLayout t.buildKeys
    keyBytes
  let rows ← growUnless (desc.buildRowsUseKeys || !!t.ownRows.hasSpaceForAppend rowBytes)
    desc.buildLayout t.ownRows rowBytes
  return ⟨keys, rows⟩

theorem localNeedsGrow_eq (desc : HashJoinBuildDesc) (chunk : DataChunk) (rowIdx : Nat)
    (t : BuildTables) : localNeedsGrow desc chunk rowIdx t =
      joinNeedsGrow desc (requiredHeapBytesForChunkRow desc.buildKeyLayout chunk rowIdx)
        (requiredHeapBytesForChunkRow desc.buildLayout chunk rowIdx) t := rfl

theorem growLocal_eq (desc : HashJoinBuildDesc) (chunk : DataChunk) (rowIdx : Nat)
    (t : BuildTables) : growLocal desc chunk rowIdx t =
      growJoin desc (requiredHeapBytesForChunkRow desc.buildKeyLayout chunk rowIdx)
        (requiredHeapBytesForChunkRow desc.buildLayout chunk rowIdx) t := rfl

theorem globalNeedsGrow_eq (desc : HashJoinBuildDesc) (src : BuildTables) (rowIdx : Nat)
    (t : BuildTables) : globalNeedsGrow desc src rowIdx t =
      joinNeedsGrow desc (requiredHeapBytesForRow desc.buildKeyLayout src.buildKeys rowIdx)
        (requiredHeapBytesForRow desc.buildLayout (src.buildRows desc) rowIdx) t := rfl

theorem growGlobal_eq (desc : HashJoinBuildDesc) (src : BuildTables) (rowIdx : Nat)
    (t : BuildTables) : growGlobal desc src rowIdx t =
      growJoin desc (requiredHeapBytesForRow desc.buildKeyLayout src.buildKeys rowIdx)
        (requiredHeapBytesForRow desc.buildLayout (src.buildRows desc) rowIdx) t := rfl

theorem ensureJoinLocalCapacity_eq (desc : HashJoinBuildDesc) (chunk : DataChunk) (rowIdx : Nat)
    (fuel : Nat) (t : BuildTables) : ensureJoinLocalCapacity desc chunk rowIdx fuel t =
      whileLoop
        (joinNeedsGrow desc (requiredHeapBytesForChunkRow desc.buildKeyLayout chunk rowIdx)
          (requiredHeapBytesForChunkRow desc.buildLayout chunk rowIdx))
        (growJoin desc (requiredHeapBytesForChunkRow desc.buildKeyLayout chunk rowIdx)
          (requiredHeapBytesForChunkRow desc.buildLayout chunk rowIdx)) fuel t := by
  induction fuel generalizing t with
  | zero => rfl
  | succ fuel ih =>
    rw [ensureJoinLocalCapacity, whileLoop, localNeedsGrow_eq, growLocal_eq]
    split
    · cases growJoin desc _ _ t with
      | error e => rfl
      | ok t => exact ih t
    · rfl

theorem ensureJoinGlobalCapacity_eq (desc : HashJoinBuildDesc) (src : BuildTables) (rowIdx : Nat)
    (fuel : Nat) (t : BuildTables) : ensureJoinGlobalCapacity desc src rowIdx fuel t =
      whileLoop
        (joinNeedsGrow desc (requiredHeapBytesForRow desc.buildKeyLayout src.buildKeys rowIdx)
          (requiredHeapBytesForRow desc.buildLayout (src.buildRows desc) rowIdx))
        (growJoin desc (requiredHeapBytesForRow desc.buildKeyLayout src.buildKeys rowIdx)
          (requiredHeapBytesForRow desc.buildLayout (src.buildRows desc) rowIdx)) fuel t := by
  induction fuel generalizing t with
  | zero => rfl
  | succ fuel ih =>
    rw [ensureJoinGlobalCapacity, whileLoop, globalNeedsGrow_eq, growGlobal_eq]
    split
    · cases growJoin desc _ _ t with
      | error e => rfl
      | ok t => exact ih t
    · rfl

/-- The row stores have the widths of their layouts. -/
structure JoinWidths (desc : HashJoinBuildDesc) (t : BuildTables) : Prop where
  keys : t.buildKeys.rowWidth = desc.buildKeyLayout.rowWidth
  rows : desc.buildRowsUseKeys = false → t.ownRows.rowWidth = desc.buildLayout.rowWidth

/-- **The loop over both row stores of a join ends**: the sum of their ranks gets lower. -/
theorem joinLoop_ends {t : BuildTables}
    (hkeys : desc.buildKeyLayout.hasStringRef = false → keyBytes = 0)
    (hrows : desc.buildLayout.hasStringRef = false → rowBytes = 0) (hwidths : JoinWidths desc t) :
    Ends (joinNeedsGrow desc keyBytes rowBytes) (growJoin desc keyBytes rowBytes) t := by
  refine @ends_of_rank _ _ _ _ _ (JoinWidths desc) (fun t =>
    growRank desc.buildKeyLayout 1 keyBytes t.buildKeys +
      if desc.buildRowsUseKeys then 0
      else growRank desc.buildLayout 1 rowBytes t.ownRows) ?_ hwidths
  intro t t' ht hneeds hok
  unfold growJoin at hok
  unfold joinNeedsGrow at hneeds
  rw [Bool.not_not, Bool.not_not] at hok
  obtain ⟨keys, hgrowKeys, hok⟩ := bind_eq_ok hok
  obtain ⟨rows, hgrowRows, hpure⟩ := bind_eq_ok hok
  obtain rfl := Except.ok.inj hpure
  obtain ⟨hkeyWidth, hkeyLe, hkeyLt⟩ := growUnless_rank rfl ht.keys hkeys hgrowKeys
  cases huse : desc.buildRowsUseKeys with
  | true =>
    rw [huse, Bool.not_true, Bool.false_and, Bool.or_false, Bool.not_eq_true'] at hneeds
    refine ⟨⟨hkeyWidth, fun hfalse => ?_⟩, ?_⟩
    · rw [huse] at hfalse
      cases hfalse
    · have hless := hkeyLt hneeds
      dsimp only
      rw [if_pos rfl, if_pos rfl]
      omega
  | false =>
    rw [huse, Bool.false_or] at hgrowRows
    rw [huse, Bool.not_false, Bool.true_and, Bool.or_eq_true, Bool.not_eq_true',
      Bool.not_eq_true'] at hneeds
    obtain ⟨hrowWidth, hrowLe, hrowLt⟩ := growUnless_rank rfl (ht.rows huse) hrows hgrowRows
    refine ⟨⟨hkeyWidth, fun _ => hrowWidth⟩, ?_⟩
    dsimp only
    rw [if_neg Bool.false_ne_true, if_neg Bool.false_ne_true]
    rcases hneeds with hneeds | hneeds
    · have hless := hkeyLt hneeds
      omega
    · have hless := hrowLt hneeds
      omega

end Join

/-! ### The cross product -/

/-- A row store of a layout with columns, as it was allocated. -/
structure RowStoreOf (layout : TupleDataLayout) (t : TupleDataCollection) : Prop where
  rowWidth : t.rowWidth = layout.rowWidth
  positive : layout.rowWidth ≠ 0
  allocated : Allocated t

theorem RowStoreOf.rowCapacity_lt {layout : TupleDataLayout} {t : TupleDataCollection}
    (h : RowStoreOf layout t) : t.rowCapacity < maxFlatAllocBytes := by
  have halloc := h.allocated
  have hpositive := h.positive
  unfold Allocated at halloc
  rw [h.rowWidth] at halloc
  have hle : t.rowCapacity * 1 ≤ t.rowCapacity * layout.rowWidth :=
    Nat.mul_le_mul_left _ (by omega)
  omega

/-- A turn of the cross product has more rows than before. -/
theorem growTdcCopyRows_grows {layout : TupleDataLayout} {old t : TupleDataCollection}
    (hold : RowStoreOf layout old)
    (h : CrossProduct.growTdcCopyRows layout old ((old.rowCapacity + 1) % 2 ^ 32) = .ok t) :
    RowStoreOf layout t ∧ old.rowCapacity < t.rowCapacity := by
  have hcopy : PayloadStores.InPlace (CrossProduct.copyBuildRow layout) := by
    intro src srcRow dst dstRow dst' h
    exact PayloadStores.copyBuildRow_inPlace layout _ _ _ _ _ (mapError_eq_ok h)
  have hlt := hold.rowCapacity_lt
  unfold CrossProduct.growTdcCopyRows at h
  dsimp only at h
  obtain ⟨heapCapacity, -, h⟩ := bind_eq_ok h
  obtain ⟨new, hnew, h⟩ := bind_eq_ok h
  obtain ⟨hcheck, rfl⟩ := allocate_eq hnew
  obtain ⟨heapUsed, rows, rfl⟩ := @PayloadStores.growCopyRows_eq _ _ _ _ hcopy _ _ h
  refine ⟨⟨rfl, hold.positive, checkFlatAllocSize_eq_ok.1 hcheck⟩, ?_⟩
  unfold maxFlatAllocBytes at hlt
  dsimp only
  omega

theorem crossProductLoop_ends {layout : TupleDataLayout} {t : TupleDataCollection}
    (ht : RowStoreOf layout t) (cond : TupleDataCollection → Bool) :
    Ends cond (fun t => CrossProduct.growTdcCopyRows layout t ((t.rowCapacity + 1) % 2 ^ 32))
      t := by
  refine @ends_of_rank _ _ _ _ _ (RowStoreOf layout)
    (fun t => maxFlatAllocBytes - t.rowCapacity) ?_ ht
  intro t t' ht _ hok
  obtain ⟨ht', hless⟩ := growTdcCopyRows_grows ht hok
  have hlt := ht'.rowCapacity_lt
  exact ⟨ht', by omega⟩

/-! ## All loops -/

/-- **Every loop that grows a row store for a single row ends.** -/
structure RowLoopsEnd : Prop where
  combine : ∀ {owner : String} {calls : List AggregateLayout.AppendCall}
    {layout : AggregateLayout} {s : Table} {rows : List (StoredRow layout)}
    (src : TupleDataCollection) (srcRow : Nat), AggregateLayout.build calls = .ok layout →
    Represents layout s.1 s.2 rows →
    Ends (fun s : Table => partitionNeedsGrowForRow layout s.2 src srcRow)
      (fun s => AggregateHashTable.growTdc owner layout s.2
        (requiredHeapBytesForRow layout.toTupleDataLayout src srcRow)) s
  perfectHash : ∀ {owner : String} {layout : AggregateLayout} (s : Table),
    Ends (fun s : Table => decide (s.2.rowCapacity ≤ s.2.rowCount))
      (fun s => AggregateHashTable.growTdc owner layout s.2 0) s
  localPerfectHash : ∀ {layout : AggregateLayout} (t : TupleDataCollection),
    Ends (fun t : TupleDataCollection => decide (t.rowCapacity ≤ t.rowCount))
      (PayloadStores.growLocalPerfectTdc layout) t
  globalPerfectHash : ∀ {layout : AggregateLayout} (t : TupleDataCollection),
    Ends (fun t : TupleDataCollection => decide (t.rowCapacity ≤ t.rowCount))
      (PayloadStores.growGlobalPerfectTdc layout) t
  order : ∀ {layout : AggregateLayout} {t : TupleDataCollection} (chunk : DataChunk)
    (rowIdx : Nat), t.rowWidth = layout.rowWidth →
    Ends (fun t : TupleDataCollection => !t.hasSpaceForAppend
        (requiredHeapBytesForChunkRow layout.toTupleDataLayout chunk rowIdx))
      (fun t => PayloadStores.growOrderTdc layout t
        (requiredHeapBytesForChunkRow layout.toTupleDataLayout chunk rowIdx)) t
  output : ∀ {layout : AggregateLayout} {t : TupleDataCollection} (chunk : DataChunk)
    (rowIdx : Nat), t.rowWidth = layout.rowWidth →
    Ends (fun t : TupleDataCollection => !t.hasSpaceForAppend
        (requiredHeapBytesForChunkRow layout.toTupleDataLayout chunk rowIdx))
      (fun t => PayloadStores.growOutputTdc layout t
        (requiredHeapBytesForChunkRow layout.toTupleDataLayout chunk rowIdx)) t
  joinSink : ∀ {desc : HashJoinBuildDesc} {t : BuildTables} (chunk : DataChunk) (rowIdx : Nat),
    JoinWidths desc t → ∃ fuel, (ensureJoinLocalCapacity desc chunk rowIdx fuel t).isSome = true
  joinCombine : ∀ {desc : HashJoinBuildDesc} {t : BuildTables} (src : BuildTables) (rowIdx : Nat),
    JoinWidths desc t → ∃ fuel, (ensureJoinGlobalCapacity desc src rowIdx fuel t).isSome = true
  crossProduct : ∀ {layout : TupleDataLayout} {t : TupleDataCollection}
    (src : TupleDataCollection) (srcRow : Nat), RowStoreOf layout t →
    Ends (fun t => tdcNeedsGrowForStoredRow layout t src srcRow)
      (fun t => CrossProduct.growTdcCopyRows layout t ((t.rowCapacity + 1) % 2 ^ 32)) t

theorem aligned_of_build {calls : List AggregateLayout.AppendCall} {layout : AggregateLayout}
    (h : AggregateLayout.build calls = .ok layout) : layout.rowWidth % 8 = 0 :=
  (AggregateLayout.bounded_of_build h).aligned

theorem rowLoopsEnd : RowLoopsEnd where
  combine := by
    intro owner calls layout s rows src srcRow hbuild h
    apply @ends_of_not_spins owner layout (.combine src srcRow) s rows (aligned_of_build hbuild) h
    -- a single row fits where there is room for a row more
    intro hspins
    have hrow := hspins.row
    have hbatch : maxRows layout.rowWidth 0 < s.2.rowCount + 1 := hspins.batch
    omega
  perfectHash := by
    intro owner layout s
    cases hok : AggregateHashTable.growTdc owner layout s.2 0 with
    | error e => exact ends_of_error hok
    | ok s' =>
      obtain ⟨aht', t'⟩ := s'
      apply ends_of_ok hok
      apply ends_of_false
      have hroom := (growRowStore_grown (growTdc_eq_ok.1 hok).1).1.rowCount_lt
      exact decide_eq_false (by dsimp only; omega)
  localPerfectHash := fun _ =>
    ends_of_rowCount_lt fun _ _ h => PayloadStores.growPerfectTdc_rowCount_lt h
  globalPerfectHash := fun _ =>
    ends_of_rowCount_lt fun _ _ h => PayloadStores.growPerfectTdc_rowCount_lt h
  order := fun chunk rowIdx hwidth => ends_of_grown
    (fun _ _ hold h => PayloadStores.growTdc_grown (PayloadStores.copyTdcRow_inPlace _ _) hold h)
    (fun hfixed => requiredHeapBytesForChunkRow_of_fixed hfixed chunk rowIdx) hwidth
  output := fun chunk rowIdx hwidth => ends_of_grown
    (fun _ _ hold h => PayloadStores.growTdc_grown (PayloadStores.copyOutputRow_inPlace _) hold h)
    (fun hfixed => requiredHeapBytesForChunkRow_of_fixed hfixed chunk rowIdx) hwidth
  joinSink := by
    intro desc t chunk rowIdx hwidths
    obtain ⟨fuel, hfuel⟩ := joinLoop_ends
      (fun hfixed => requiredHeapBytesForChunkRow_of_fixed hfixed chunk rowIdx)
      (fun hfixed => requiredHeapBytesForChunkRow_of_fixed hfixed chunk rowIdx) hwidths
    refine ⟨fuel, ?_⟩
    rw [ensureJoinLocalCapacity_eq]
    exact hfuel
  joinCombine := by
    intro desc t src rowIdx hwidths
    obtain ⟨fuel, hfuel⟩ := joinLoop_ends
      (fun hfixed => requiredHeapBytesForRow_of_fixed hfixed src.buildKeys rowIdx)
      (fun hfixed => requiredHeapBytesForRow_of_fixed hfixed (src.buildRows desc) rowIdx) hwidths
    refine ⟨fuel, ?_⟩
    rw [ensureJoinGlobalCapacity_eq]
    exact hfuel
  crossProduct := fun _ _ ht => crossProductLoop_ends ht _

/-- **Growing, exactly.** The sizes that the helpers return fit where the heap does not take all
that the rows leave, and where a default heap is large enough; the loop for a batch ends where the
row store does not spin; and every loop for a row ends. -/
theorem growth_exact (owner : String) :
    (∀ (layout : AggregateLayout) (old : TupleDataCollection)
      (proposed minimum required : Nat), Content layout old → old.rowCount < minimum →
      minimum ≤ proposed → (SizesFit owner layout old proposed minimum required ↔
        ¬ LimitReached layout old proposed minimum required ∧
          ¬ DefaultTooSmall layout old proposed minimum required)) ∧
    (∀ (calls : List AggregateLayout.AppendCall) (layout : AggregateLayout)
      (call : TableCall) (s : Table) (rows : List (StoredRow layout)),
      AggregateLayout.build calls = .ok layout → Represents layout s.1 s.2 rows →
      (Ends (fun s : Table => call.needsGrow layout s.2)
        (fun s => AggregateHashTable.growTdc owner layout s.2 (call.requiredHeapBytes layout)) s ↔
        ¬ Spins layout call s.2)) ∧
    RowLoopsEnd :=
  ⟨fun _ _ _ _ _ hcontent hcount hproposed => sizesFit_iff hcontent hcount hproposed,
    fun _ _ _ _ _ hbuild h => ends_iff_not_spins (aligned_of_build hbuild) h, rowLoopsEnd⟩

/-! ## A row store of short strings -/

theorem placed_text : Placed 0 [⟨⟨.stringRef, 0⟩, 0, 25, 0⟩] 16 :=
  ⟨Nat.zero_le _, show 0 + 16 ≤ 16 by decide⟩

theorem inside_nil (width : Nat) : ∀ agg ∈ ([] : List TdcAggregateDesc), agg.stop ≤ width :=
  fun _ h => absurd h List.not_mem_nil

theorem apart_nil (columns : List TdcPlacedColumn) : ∀ agg ∈ ([] : List TdcAggregateDesc),
    ∀ col ∈ columns, col.stop ≤ agg.offset ∨ agg.stop ≤ col.offset :=
  fun _ h => absurd h List.not_mem_nil

/-- A layout with one string column and no aggregates. -/
def textLayout : AggregateLayout where
  columns := [⟨⟨.stringRef, 0⟩, 0, 25, 0⟩]
  rowWidth := 16
  placed := placed_text
  aggregates := []
  inside := inside_nil 16
  ordered := ordered_nil
  apart := apart_nil _

/-- Rows of empty strings. -/
def emptyTexts (rowCapacity rowCount heapCapacity : Nat) : TupleDataCollection :=
  ⟨16, rowCapacity, rowCount, heapCapacity, 0, fun _ => 0⟩

theorem emptyTexts_content (rowCapacity rowCount heapCapacity : Nat) :
    Content textLayout (emptyTexts rowCapacity rowCount heapCapacity) := by
  refine ⟨rfl, ?_, Nat.zero_le _⟩
  have hall : ∀ n, rowsHeapBytes textLayout.toTupleDataLayout
      (emptyTexts rowCapacity rowCount heapCapacity) n = 0 := by
    intro n
    induction n with
    | zero => rfl
    | succ n ih =>
      rw [rowsHeapBytes_succ, ih]
      rfl
  exact (hall _).symm

theorem growth_exact_texts :
    SizesFit "pg_yaap: hash aggregate" textLayout (emptyTexts 1 1 96) 2 2 0 ∧
    Ends (fun s : Table => (keyCall 0).needsGrow keyLayout s.2)
      (fun s => AggregateHashTable.growTdc "pg_yaap: hash aggregate" keyLayout s.2
        ((keyCall 0).requiredHeapBytes keyLayout))
      (init (chooseCapacity 256) (chooseCapacity_powerOfTwo 256),
        ⟨8, 256, 0, 0, 0, fun _ => 0⟩) := by
  constructor
  · refine ((growth_exact _).1 _ _ 2 2 0 (emptyTexts_content 1 1 96) (by decide) (by decide)).2
      ⟨fun h => absurd h.limit (by decide), fun h => absurd h.heap (by decide)⟩
  · have halloc : allocate 256 keyLayout.rowWidth
        (defaultHeapCapacity keyLayout.toTupleDataLayout 256) =
          .ok ⟨8, 256, 0, 0, 0, fun _ => 0⟩ := rfl
    refine ((growth_exact _).2.1 [.column .int64 0 20 0] keyLayout (keyCall 0) _ [] rfl
      (settled_new halloc).represents).2 fun h => ?_
    have hfits : (keyCall 0).needsGrow keyLayout ⟨8, 256, 0, 0, 0, fun _ => 0⟩ = false :=
      keyCall_needsGrow.2 (show 0 < 256 by decide)
    cases h.needs.symm.trans hfits

/-- **Sizes that are refused.** A row store for a million rows has grown to sixty-seven million
short strings: the rows double to two gigabytes, and the heap takes all of the third. -/
theorem not_sizesFit :
    ¬ ∀ (owner : String) (layout : AggregateLayout) (old : TupleDataCollection)
      (proposed minimum required : Nat), Content layout old → old.rowCount < minimum →
      minimum ≤ proposed → SizesFit owner layout old proposed minimum required := by
  intro hall
  have hfit := hall "pg_yaap: hash aggregate" textLayout (emptyTexts (2 ^ 26) (2 ^ 26) 1146617856)
    (2 ^ 27) (2 ^ 26 + 1) 0 (emptyTexts_content _ _ _) (by decide) (by decide)
  obtain ⟨-, new, copied, hnew, -⟩ := hfit (2 ^ 27) (2 ^ 30 - 40) rfl rfl
  have hcheck := checkFlatAllocSize_eq_ok.1 (allocate_eq hnew).1
  revert hcheck
  decide

end GrowthLoops
end PgYaap
