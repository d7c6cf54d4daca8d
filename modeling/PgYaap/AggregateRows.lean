import PgYaap.AggregateNulls
import PgYaap.HashJoinBuildMerge

/-! # Stored rows with aggregates

The states of a row lie behind its group columns, eight bytes for a value and eight more for the
count of an average. A loop over the aggregates of a row writes the bytes of their states and no
others, so that the columns of the row, and all other rows, are as they were. A row store holds
rows when every row decodes to its group columns and its states; what is past the last row is
still zero from the allocation. -/
namespace PgYaap

open ColumnSlots AggregateStates HashJoinBuild

namespace TupleDataCollection

/-! ## Access -/

/-- `ReadInt64At`. -/
def readInt64At (t : TupleDataCollection) (start : Nat) : Int64 :=
  (UInt64.ofNat (ByteMemory.decode (t.rows.read start 8))).toInt64

/-- `memcpy` of an `int64_t` into the row store. -/
def writeInt64At (t : TupleDataCollection) (start : Nat) (v : Int64) : TupleDataCollection :=
  { t with rows := t.rows.write start (ByteMemory.encode 8 v.toUInt64.toNat) }

/-- The state of an aggregate in a row. -/
def readState (t : TupleDataCollection) (rowIdx : Nat) (agg : TdcAggregateDesc) :
    AggState agg.kind where
  value := t.readInt64At (t.getRow rowIdx + agg.offset)
  count := if agg.kind = .avgNumeric then t.readInt64At (t.getRow rowIdx + agg.offset + 8) else 0
  count_eq := fun h => if_neg h

def writeState (t : TupleDataCollection) (rowIdx : Nat) (agg : TdcAggregateDesc)
    (s : AggState agg.kind) : TupleDataCollection :=
  let t' := t.writeInt64At (t.getRow rowIdx + agg.offset) s.value
  if agg.kind = .avgNumeric then t'.writeInt64At (t.getRow rowIdx + agg.offset + 8) s.count else t'

/-- The states of a row. -/
def states (layout : AggregateLayout) (t : TupleDataCollection) (rowIdx : Nat) :
    States layout.aggregates :=
  fun a => t.readState rowIdx (layout.aggregates.get a)

/-! ## Codec -/

/-- One turn of the loop of `ScatterGroupOnly` over the aggregates: only least and greatest
values do not begin at zero. -/
def initAggregate (rowIdx : Nat) (t : TupleDataCollection) (agg : TdcAggregateDesc) :
    TupleDataCollection :=
  match agg.kind with
  | .minInt64 | .minNumeric => t.writeInt64At (t.getRow rowIdx + agg.offset) Int64.maxValue
  | .maxInt64 | .maxNumeric => t.writeInt64At (t.getRow rowIdx + agg.offset) Int64.minValue
  | .countStar | .countNonnull | .countDistinctNonnull | .sumInt64 | .sumNumeric | .avgNumeric => t

/-- The loop of `ScatterGroupOnly` over the aggregates. -/
def initAggregates (layout : AggregateLayout) (t : TupleDataCollection) (rowIdx : Nat) :
    TupleDataCollection :=
  layout.aggregates.foldl (initAggregate rowIdx) t

/-- `ScatterGroupOnly`. -/
def scatterGroup (layout : AggregateLayout) (dst : TupleDataCollection) (dstRow : Nat)
    (row : AggregateStates.ChunkRow) : Except String TupleDataCollection := do
  let dst ← scatterGroupOnly layout.toTupleDataLayout dst dstRow row.1 row.2
  return dst.initAggregates layout dstRow

/-- The state that `Scatter` writes for aggregate `a`: the value of the chunk in the slot behind
the columns, and one as the count of an average. -/
def scatteredState (layout : AggregateLayout) (row : AggregateStates.ChunkRow)
    (agg : TdcAggregateDesc) (a : Nat) : AggState agg.kind where
  value := row.1.getInt64 (layout.columns.length + a) row.2
  count := if agg.kind = .avgNumeric then 1 else 0
  count_eq := fun h => if_neg h

/-- `Scatter`. -/
def scatter (layout : AggregateLayout) (dst : TupleDataCollection) (dstRow : Nat)
    (row : AggregateStates.ChunkRow) : Except String TupleDataCollection := do
  let dst ← scatterGroupOnly layout.toTupleDataLayout dst dstRow row.1 row.2
  return layout.aggregates.zipIdx.foldl
    (fun dst agg => dst.writeState dstRow agg.1 (scatteredState layout row agg.1 agg.2)) dst

/-- `UpdateAggregates`. -/
def updateAggregatesAt (layout : AggregateLayout) (t : TupleDataCollection) (rowIdx : Nat)
    (row : AggregateStates.ChunkRow) : TupleDataCollection :=
  layout.aggregates.foldl (fun t agg =>
    t.writeState rowIdx agg (updateState agg.kind (t.readState rowIdx agg)
      (row.1.getInt64 agg.srcColIdx row.2) (row.1.nulls agg.srcColIdx row.2))) t

/-- `CombineAggregates`. -/
def combineAggregatesAt (layout : AggregateLayout) (dst : TupleDataCollection) (dstRow : Nat)
    (src : TupleDataCollection) (srcRow : Nat) : TupleDataCollection :=
  layout.aggregates.foldl (fun dst agg =>
    dst.writeState dstRow agg (combineState agg.kind (dst.readState dstRow agg)
      (src.readState srcRow agg))) dst

/-- The loop of `CopyTdcRow` over the aggregates. -/
def copyAggregates (layout : AggregateLayout) (src : TupleDataCollection) (srcRow : Nat)
    (dst : TupleDataCollection) (dstRow : Nat) : TupleDataCollection :=
  layout.aggregates.foldl (fun dst agg =>
    { dst with
      rows := dst.rows.write (dst.getRow dstRow + agg.offset)
        (src.rows.read (src.getRow srcRow + agg.offset) agg.kind.width) }) dst

/-- `CopyTdcRow`. -/
def copyTdcRow (layout : AggregateLayout) (src : TupleDataCollection) (srcRow : Nat)
    (dst : TupleDataCollection) (dstRow : Nat) : Except String TupleDataCollection := do
  let dst ← (copyBuildRow layout.toTupleDataLayout src srcRow dst dstRow).mapError fun _ =>
    "pg_yaap: hash aggregate TDC copy ran out of heap"
  return copyAggregates layout src srcRow dst dstRow

/-- The new row of `AggregateHashTableCombineRow`: `CopyGroupColumns`, and new states. -/
def copyGroup (layout : AggregateLayout) (src : TupleDataCollection) (srcRow : Nat)
    (dst : TupleDataCollection) (dstRow : Nat) : Except String TupleDataCollection := do
  let dst ← (copyBuildRow layout.toTupleDataLayout src srcRow dst dstRow).mapError fun _ =>
    "pg_yaap: aggregate hash table string group copy failed"
  return dst.initAggregates layout dstRow

/-! ## One state -/

section OneState

variable {t t' t'' : TupleDataCollection} {rowIdx : Nat} {agg : TdcAggregateDesc}

theorem int64_decode (v : Int64) :
    (UInt64.ofNat (ByteMemory.decode (ByteMemory.encode 8 v.toUInt64.toNat))).toInt64 = v := by
  rw [uint64_decode]
  rfl

theorem readInt64At_writeInt64At (t : TupleDataCollection) (start : Nat) (v : Int64) :
    (t.writeInt64At start v).readInt64At start = v := by
  have hread : (t.rows.write start (ByteMemory.encode 8 v.toUInt64.toNat)).read start 8 =
      ByteMemory.encode 8 v.toUInt64.toNat :=
    ByteMemory.read_write_of_length (ByteMemory.length_encode _ _)
  rw [readInt64At, writeInt64At, hread, int64_decode]

/-- Blocks with the same bytes have them at the same places. -/
theorem read_inj {m m' : ByteMemory} {start start' n : Nat}
    (h : m'.read start' n = m.read start n) : ∀ i, i < n → m' (start' + i) = m (start + i) := by
  induction n generalizing start start' with
  | zero => exact fun i hi => absurd hi (Nat.not_lt_zero i)
  | succ n ih =>
    rw [ByteMemory.read, ByteMemory.read, List.cons.injEq] at h
    intro i hi
    cases i with
    | zero => exact h.1
    | succ i =>
      have hrest := ih h.2 i (by omega)
      rwa [Nat.add_assoc, Nat.add_assoc, Nat.add_comm 1 i] at hrest

/-- A byte outside of a write. -/
theorem write_apart {m : ByteMemory} {start a : Nat} {bytes : List UInt8}
    (h : a < start ∨ start + bytes.length ≤ a) : m.write start bytes a = m a := by
  rcases h with h | h
  · exact ByteMemory.write_of_lt h
  · exact ByteMemory.write_of_ge h

theorem writeInt64At_apart {start a : Nat} {v : Int64} (h : a < start ∨ start + 8 ≤ a) :
    (t.writeInt64At start v).rows a = t.rows a := by
  refine write_apart ?_
  rwa [ByteMemory.length_encode]

/-- The bytes of a state have not changed. -/
def SameBytes (t t' : TupleDataCollection) (rowIdx : Nat) (agg : TdcAggregateDesc) : Prop :=
  ∀ a, t.getRow rowIdx + agg.offset ≤ a → a < t.getRow rowIdx + agg.stop → t'.rows a = t.rows a

/-- **What a loop over the aggregates of a row may change**: the bytes of their states. -/
structure OnlyStates (t t' : TupleDataCollection) (rowIdx : Nat) (aggs : List TdcAggregateDesc) :
    Prop where
  eq : t' = { t with rows := t'.rows }
  same : ∀ a, (∀ agg ∈ aggs, a < t.getRow rowIdx + agg.offset ∨ t.getRow rowIdx + agg.stop ≤ a) →
    t'.rows a = t.rows a

theorem OnlyStates.refl (t : TupleDataCollection) (rowIdx : Nat) (aggs : List TdcAggregateDesc) :
    OnlyStates t t rowIdx aggs := ⟨rfl, fun _ _ => rfl⟩

theorem OnlyStates.getRow {aggs : List TdcAggregateDesc} (h : OnlyStates t t' rowIdx aggs)
    (r : Nat) : t'.getRow r = t.getRow r := by
  rw [h.eq]
  rfl

theorem OnlyStates.trans {aggs aggs' : List TdcAggregateDesc} (h : OnlyStates t t' rowIdx aggs)
    (h' : OnlyStates t' t'' rowIdx aggs') : OnlyStates t t'' rowIdx (aggs ++ aggs') where
  eq := by rw [h'.eq, h.eq]
  same := by
    intro a ha
    rw [h'.same a fun agg hagg => by
        rw [h.getRow]
        exact ha agg (List.mem_append_right _ hagg),
      h.same a fun agg hagg => ha agg (List.mem_append_left _ hagg)]

theorem rowWidth_of_eq (h : t' = { t with rows := t'.rows }) : t'.rowWidth = t.rowWidth := by
  rw [h]

theorem readState_congr (hwidth : t'.rowWidth = t.rowWidth) (h : SameBytes t t' rowIdx agg) :
    t'.readState rowIdx agg = t.readState rowIdx agg := by
  have hrow : t'.getRow rowIdx = t.getRow rowIdx := by
    rw [TupleDataCollection.getRow, hwidth, TupleDataCollection.getRow]
  have hread : ∀ k, k + 8 ≤ agg.kind.width →
      t'.readInt64At (t'.getRow rowIdx + agg.offset + k) =
        t.readInt64At (t.getRow rowIdx + agg.offset + k) := by
    intro k hk
    rw [readInt64At, readInt64At, hrow]
    rw [ByteMemory.read_congr fun a ha hb => h a (by omega) (by
      rw [TdcAggregateDesc.stop]
      omega)]
  refine AggState.ext (hread 0 agg.kind.eight_le_width) ?_
  change (if _ then _ else _) = (if _ then _ else _)
  by_cases havg : agg.kind = .avgNumeric
  · rw [if_pos havg, if_pos havg]
    exact hread 8 (by rw [havg]; decide)
  · rw [if_neg havg, if_neg havg]

/-- **A state that is written is read back**, and nothing else has changed. -/
theorem writeState_spec (t : TupleDataCollection) (rowIdx : Nat) (agg : TdcAggregateDesc)
    (s : AggState agg.kind) :
    OnlyStates t (t.writeState rowIdx agg s) rowIdx [agg] ∧
      (t.writeState rowIdx agg s).readState rowIdx agg = s := by
  have hwidth := agg.kind.eight_le_width
  by_cases havg : agg.kind = .avgNumeric
  · have hsixteen : agg.kind.width = 16 := by rw [havg]; rfl
    have heq : t.writeState rowIdx agg s =
        (t.writeInt64At (t.getRow rowIdx + agg.offset) s.value).writeInt64At
          (t.getRow rowIdx + agg.offset + 8) s.count := if_pos havg
    rw [heq]
    refine ⟨⟨rfl, fun a ha => ?_⟩, AggState.ext ?_ ?_⟩
    · have hout := ha agg (List.mem_singleton_self _)
      rw [TdcAggregateDesc.stop, hsixteen] at hout
      have hfirst : a < t.getRow rowIdx + agg.offset ∨ t.getRow rowIdx + agg.offset + 8 ≤ a := by
        omega
      exact (writeInt64At_apart (by omega)).trans (writeInt64At_apart hfirst)
    · change readInt64At _ (t.getRow rowIdx + agg.offset) = s.value
      rw [readInt64At, writeInt64At]
      rw [ByteMemory.read_write_apart (Or.inl (Nat.le_refl _))]
      exact readInt64At_writeInt64At t _ s.value
    · refine (if_pos havg).trans ?_
      exact readInt64At_writeInt64At _ (t.getRow rowIdx + agg.offset + 8) s.count
  · have heq : t.writeState rowIdx agg s =
        t.writeInt64At (t.getRow rowIdx + agg.offset) s.value := if_neg havg
    rw [heq]
    refine ⟨⟨rfl, fun a ha => ?_⟩, AggState.ext ?_ ?_⟩
    · have hout := ha agg (List.mem_singleton_self _)
      rw [TdcAggregateDesc.stop] at hout
      exact writeInt64At_apart (by omega)
    · exact readInt64At_writeInt64At t (t.getRow rowIdx + agg.offset) s.value
    · exact (if_neg havg).trans (s.count_eq havg).symm

end OneState

/-! ## Loops over the aggregates -/

section Loops

variable {t : TupleDataCollection} {rowIdx : Nat}

/-- **A loop over aggregates whose turns each write a state** leaves the row with all of them:
the states lie apart, so that a turn finds the bytes of its state as they were, and leaves those
of the turns before alone. -/
theorem foldl_states {β : Type} {desc : β → TdcAggregateDesc}
    {value : (b : β) → AggState (desc b).kind}
    {step : TupleDataCollection → β → TupleDataCollection} {items : List β}
    (hordered : (items.map desc).Pairwise fun a b => a.stop ≤ b.offset)
    (hstep : ∀ b ∈ items, ∀ t' : TupleDataCollection, t' = { t with rows := t'.rows } →
      SameBytes t t' rowIdx (desc b) →
      OnlyStates t' (step t' b) rowIdx [desc b] ∧
        (step t' b).readState rowIdx (desc b) = value b) :
    OnlyStates t (items.foldl step t) rowIdx (items.map desc) ∧
      ∀ b ∈ items, (items.foldl step t).readState rowIdx (desc b) = value b := by
  induction items generalizing t with
  | nil => exact ⟨OnlyStates.refl t rowIdx [], fun _ h => absurd h List.not_mem_nil⟩
  | cons b items ih =>
    rw [List.map_cons, List.pairwise_cons] at hordered
    obtain ⟨honly, hvalue⟩ := hstep b List.mem_cons_self t rfl fun _ _ _ => rfl
    have hrow := honly.getRow rowIdx
    have hrest := @ih (step t b) hordered.2 (by
      intro b' hb' t' heq hsame
      refine hstep b' (List.mem_cons_of_mem _ hb') t' ?_ ?_
      · rw [heq, honly.eq]
      · intro a ha ha'
        have hle := hordered.1 (desc b') (List.mem_map_of_mem hb')
        rw [hsame a (by omega) (by omega)]
        refine honly.same a fun agg hagg => Or.inr ?_
        rw [List.mem_singleton.1 hagg]
        omega)
    rw [List.foldl_cons]
    refine ⟨honly.trans hrest.1, fun b' hb' => ?_⟩
    rcases List.mem_cons.1 hb' with rfl | hmem
    · rw [← hvalue]
      refine readState_congr (rowWidth_of_eq hrest.1.eq) ?_
      intro a ha ha'
      refine hrest.1.same a fun agg hagg => Or.inl ?_
      have hle := hordered.1 agg hagg
      omega
    · exact hrest.2 b' hmem

theorem foldl_states_self {value : (agg : TdcAggregateDesc) → AggState agg.kind}
    {step : TupleDataCollection → TdcAggregateDesc → TupleDataCollection}
    {layout : AggregateLayout}
    (hstep : ∀ agg ∈ layout.aggregates, ∀ t' : TupleDataCollection,
      t' = { t with rows := t'.rows } → SameBytes t t' rowIdx agg →
      OnlyStates t' (step t' agg) rowIdx [agg] ∧ (step t' agg).readState rowIdx agg = value agg) :
    OnlyStates t (layout.aggregates.foldl step t) rowIdx layout.aggregates ∧
      (layout.aggregates.foldl step t).states layout rowIdx =
        fun a => value (layout.aggregates.get a) := by
  have hself : layout.aggregates.map (fun agg => agg) = layout.aggregates := List.map_id' _
  have hall := @foldl_states t rowIdx TdcAggregateDesc (fun agg => agg) value step layout.aggregates
    (by rw [hself]; exact layout.ordered) hstep
  rw [hself] at hall
  exact ⟨hall.1, funext fun a => hall.2 _ (List.get_mem _ _)⟩

variable (layout : AggregateLayout)

/-- **`UpdateAggregates`** on the bytes of a row updates its states. -/
theorem updateAggregatesAt_spec (t : TupleDataCollection) (rowIdx : Nat)
    (row : AggregateStates.ChunkRow) :
    OnlyStates t (t.updateAggregatesAt layout rowIdx row) rowIdx layout.aggregates ∧
      (t.updateAggregatesAt layout rowIdx row).states layout rowIdx =
        updateAggregates (t.states layout rowIdx) row := by
  refine @foldl_states_self t rowIdx (fun agg => updateState agg.kind (t.readState rowIdx agg)
    (row.1.getInt64 agg.srcColIdx row.2) (row.1.nulls agg.srcColIdx row.2)) _ layout ?_
  intro agg hagg t' heq hsame
  have hread := readState_congr (rowWidth_of_eq heq) hsame
  rw [hread]
  exact writeState_spec t' rowIdx agg _

/-- **`CombineAggregates`** on the bytes of two rows combines their states. -/
theorem combineAggregatesAt_spec (t : TupleDataCollection) (rowIdx : Nat)
    (src : TupleDataCollection) (srcRow : Nat) :
    OnlyStates t (t.combineAggregatesAt layout rowIdx src srcRow) rowIdx layout.aggregates ∧
      (t.combineAggregatesAt layout rowIdx src srcRow).states layout rowIdx =
        combineAggregates (t.states layout rowIdx) (src.states layout srcRow) := by
  refine @foldl_states_self t rowIdx (fun agg => combineState agg.kind (t.readState rowIdx agg)
    (src.readState srcRow agg)) _ layout ?_
  intro agg hagg t' heq hsame
  have hread := readState_congr (rowWidth_of_eq heq) hsame
  rw [hread]
  exact writeState_spec t' rowIdx agg _

/-- The bytes of a state that are copied are the state. -/
theorem copyState_spec (t src : TupleDataCollection) (rowIdx srcRow : Nat)
    (agg : TdcAggregateDesc) :
    OnlyStates t { t with
        rows := t.rows.write (t.getRow rowIdx + agg.offset)
          (src.rows.read (src.getRow srcRow + agg.offset) agg.kind.width) } rowIdx [agg] ∧
      ({ t with
        rows := t.rows.write (t.getRow rowIdx + agg.offset)
          (src.rows.read (src.getRow srcRow + agg.offset) agg.kind.width) } :
        TupleDataCollection).readState rowIdx agg = src.readState srcRow agg := by
  have hlength : (src.rows.read (src.getRow srcRow + agg.offset) agg.kind.width).length =
      agg.kind.width := ByteMemory.length_read
  refine ⟨⟨rfl, fun a ha => write_apart ?_⟩, ?_⟩
  · have hout := ha agg (List.mem_singleton_self _)
    rw [hlength]
    rw [TdcAggregateDesc.stop] at hout
    omega
  · have hbyte : ∀ i, i < agg.kind.width →
        t.rows.write (t.getRow rowIdx + agg.offset)
          (src.rows.read (src.getRow srcRow + agg.offset) agg.kind.width)
          (t.getRow rowIdx + agg.offset + i) = src.rows (src.getRow srcRow + agg.offset + i) := by
      intro i hi
      have hread : (t.rows.write (t.getRow rowIdx + agg.offset)
          (src.rows.read (src.getRow srcRow + agg.offset) agg.kind.width)).read
            (t.getRow rowIdx + agg.offset) agg.kind.width =
          src.rows.read (src.getRow srcRow + agg.offset) agg.kind.width :=
        ByteMemory.read_write_of_length hlength
      exact read_inj hread i hi
    have hread : ∀ k, k + 8 ≤ agg.kind.width →
        ({ t with
          rows := t.rows.write (t.getRow rowIdx + agg.offset)
            (src.rows.read (src.getRow srcRow + agg.offset) agg.kind.width) } :
          TupleDataCollection).readInt64At (t.getRow rowIdx + agg.offset + k) =
        src.readInt64At (src.getRow srcRow + agg.offset + k) := by
      intro k hk
      refine congrArg (fun bytes => (UInt64.ofNat (ByteMemory.decode bytes)).toInt64)
        (ByteMemory.read_eq_read fun i hi => ?_)
      have hsame := hbyte (k + i) (by omega)
      rwa [← Nat.add_assoc, ← Nat.add_assoc] at hsame
    refine AggState.ext (hread 0 agg.kind.eight_le_width) ?_
    change (if _ then _ else _) = (if _ then _ else _)
    by_cases havg : agg.kind = .avgNumeric
    · rw [if_pos havg, if_pos havg]
      exact hread 8 (by rw [havg]; decide)
    · rw [if_neg havg, if_neg havg]

/-- **`CopyTdcRow`** copies the states. -/
theorem copyAggregates_spec (t : TupleDataCollection) (rowIdx : Nat) (src : TupleDataCollection)
    (srcRow : Nat) :
    OnlyStates t (copyAggregates layout src srcRow t rowIdx) rowIdx layout.aggregates ∧
      (copyAggregates layout src srcRow t rowIdx).states layout rowIdx =
        src.states layout srcRow :=
  @foldl_states_self t rowIdx (fun agg => src.readState srcRow agg) _ layout fun agg _ t' _ _ =>
    copyState_spec t' src rowIdx srcRow agg

end Loops
end TupleDataCollection
end PgYaap
