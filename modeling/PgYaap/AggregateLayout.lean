import PgYaap.ColumnSlots
import PgYaap.TupleDataCollection

/-! # Layouts with aggregates

The row of an aggregate has the group columns and, for every aggregate, a state of 8 bytes, or
of 16 for an average. Columns and aggregates may be appended in any order: each takes the next
bytes of the row, so that no two of them overlap. The row has no other fields; in particular
there is no validity bitmap. -/
namespace PgYaap

open ColumnSlots

/-- `TupleDataLayoutAggregateWidth`. -/
def ColumnSlots.TdcAggKind.width : TdcAggKind → Nat
  | .avgNumeric => 16
  | .sumInt64 | .countStar | .countNonnull | .countDistinctNonnull | .sumNumeric | .minInt64
  | .minNumeric | .maxInt64 | .maxNumeric => 8

theorem ColumnSlots.TdcAggKind.eight_le_width (kind : TdcAggKind) : 8 ≤ kind.width := by
  cases kind <;> decide

theorem Placed.weaken {start stop stop' : Nat} {cols : List TdcPlacedColumn}
    (h : Placed start cols stop) (hle : stop ≤ stop') : Placed start cols stop' := by
  induction cols generalizing start with
  | nil => exact Nat.le_trans h hle
  | cons col cols ih => exact ⟨h.1, ih h.2⟩

/-- An aggregate of a layout: its kind, its place in the row and the chunk slot of its input. -/
structure TdcAggregateDesc where
  kind : TdcAggKind
  offset : Nat
  srcColIdx : Nat
  pgAggOid : Nat
  numericScale : Int
  deriving DecidableEq

/-- The end of a state in the row. -/
def TdcAggregateDesc.stop (agg : TdcAggregateDesc) : Nat := agg.offset + agg.kind.width

/-- `TupleDataLayout`. What lies in the row lies apart from everything else in it. -/
structure AggregateLayout extends TupleDataLayout where
  aggregates : List TdcAggregateDesc
  inside : ∀ agg ∈ aggregates, agg.stop ≤ rowWidth
  ordered : aggregates.Pairwise fun a b => a.stop ≤ b.offset
  apart : ∀ agg ∈ aggregates, ∀ col ∈ columns, col.stop ≤ agg.offset ∨ agg.stop ≤ col.offset

namespace AggregateLayout

/-- `TupleDataLayoutInit`. -/
def init : AggregateLayout where
  toTupleDataLayout := TupleDataLayout.init
  aggregates := []
  inside := fun _ h => absurd h List.not_mem_nil
  ordered := List.Pairwise.nil
  apart := fun _ h => absurd h List.not_mem_nil

/-- `TupleDataLayoutAppendColumn`. -/
def appendColumn (layout : AggregateLayout) (kind : TdcColumnKind) (srcColIdx pgTypeOid : Nat)
    (numericScale : Int) : Except String AggregateLayout :=
  if 32 ≤ layout.columns.length then .error "pg_yaap: TupleDataLayout column overflow (max %u)"
  else .ok
    { columns := layout.columns ++
        [⟨⟨kind, srcColIdx⟩, layout.rowWidth, pgTypeOid, numericScale⟩]
      rowWidth := layout.rowWidth + (kind.width + 7) / 8 * 8
      placed := layout.placed.append (Nat.le_refl _) (by
        change layout.rowWidth + kind.width ≤ _
        omega)
      aggregates := layout.aggregates
      inside := fun agg hagg => Nat.le_trans (layout.inside agg hagg) (Nat.le_add_right _ _)
      ordered := layout.ordered
      apart := by
        intro agg hagg col hcol
        rcases List.mem_append.1 hcol with hold | hnew
        · exact layout.apart agg hagg col hold
        · rw [List.mem_singleton.1 hnew]
          exact Or.inr (layout.inside agg hagg) }

/-- `TupleDataLayoutAppendAggregate`. -/
def appendAggregate (layout : AggregateLayout) (kind : TdcAggKind) (srcColIdx pgAggOid : Nat)
    (numericScale : Int) : Except String AggregateLayout :=
  if 32 ≤ layout.aggregates.length then
    .error "pg_yaap: TupleDataLayout aggregate overflow (max %u)"
  else .ok
    { columns := layout.columns
      rowWidth := layout.rowWidth + (kind.width + 7) / 8 * 8
      placed := layout.placed.weaken (Nat.le_add_right _ _)
      aggregates := layout.aggregates ++
        [⟨kind, layout.rowWidth, srcColIdx, pgAggOid, numericScale⟩]
      inside := by
        intro agg hagg
        rcases List.mem_append.1 hagg with hold | hnew
        · exact Nat.le_trans (layout.inside agg hold) (Nat.le_add_right _ _)
        · rw [List.mem_singleton.1 hnew]
          change layout.rowWidth + kind.width ≤ _
          omega
      ordered := by
        refine List.pairwise_append.2 ⟨layout.ordered, List.pairwise_singleton _ _, ?_⟩
        intro agg hagg new hnew
        rw [List.mem_singleton.1 hnew]
        exact layout.inside agg hagg
      apart := by
        intro agg hagg col hcol
        rcases List.mem_append.1 hagg with hold | hnew
        · exact layout.apart agg hold col hcol
        · rw [List.mem_singleton.1 hnew]
          exact Or.inl (layout.placed.mem hcol).2 }

/-- `TupleDataLayoutSeal`. -/
def layoutSeal (layout : AggregateLayout) : AggregateLayout where
  columns := layout.columns
  rowWidth := (layout.rowWidth + 7) / 8 * 8
  placed := layout.placed.weaken (by omega)
  aggregates := layout.aggregates
  inside := fun agg hagg => Nat.le_trans (layout.inside agg hagg) (by omega)
  ordered := layout.ordered
  apart := layout.apart

/-- A call of one of the two append functions. -/
inductive AppendCall
  | column (kind : TdcColumnKind) (srcColIdx pgTypeOid : Nat) (numericScale : Int)
  | aggregate (kind : TdcAggKind) (srcColIdx pgAggOid : Nat) (numericScale : Int)

def append (layout : AggregateLayout) : AppendCall → Except String AggregateLayout
  | .column kind srcColIdx pgTypeOid numericScale =>
    layout.appendColumn kind srcColIdx pgTypeOid numericScale
  | .aggregate kind srcColIdx pgAggOid numericScale =>
    layout.appendAggregate kind srcColIdx pgAggOid numericScale

/-- A layout that is built by calls of the append functions and sealed. -/
def build (calls : List AppendCall) : Except String AggregateLayout := do
  let layout ← calls.foldlM append init
  return layout.layoutSeal

/-! ## Byte ranges -/

/-- The byte ranges of the columns, and of the aggregates. -/
def fields (layout : AggregateLayout) : List (Nat × Nat) :=
  layout.columns.map (fun col => (col.offset, col.stop)) ++
    layout.aggregates.map fun agg => (agg.offset, agg.stop)

/-- Two byte ranges have no byte in common. -/
def Apart (a b : Nat × Nat) : Prop := a.2 ≤ b.1 ∨ b.2 ≤ a.1

theorem placed_pairwise {start stop : Nat} {cols : List TdcPlacedColumn}
    (h : Placed start cols stop) : cols.Pairwise fun a b => a.stop ≤ b.offset := by
  induction cols generalizing start with
  | nil => exact List.Pairwise.nil
  | cons col cols ih => exact List.pairwise_cons.2 ⟨fun c hc => (h.2.mem hc).1, ih h.2⟩

/-- **No two fields of a row overlap.** -/
theorem fields_pairwise (layout : AggregateLayout) : layout.fields.Pairwise Apart := by
  refine List.pairwise_append.2 ⟨?_, ?_, ?_⟩
  · exact List.pairwise_map.2 ((placed_pairwise layout.placed).imp Or.inl)
  · exact List.pairwise_map.2 (layout.ordered.imp Or.inl)
  · intro a ha b hb
    obtain ⟨col, hcol, rfl⟩ := List.mem_map.1 ha
    obtain ⟨agg, hagg, rfl⟩ := List.mem_map.1 hb
    exact layout.apart agg hagg col hcol

theorem fields_inside (layout : AggregateLayout) {field : Nat × Nat} (h : field ∈ layout.fields) :
    field.1 ≤ field.2 ∧ field.2 ≤ layout.rowWidth := by
  rcases List.mem_append.1 h with hfield | hfield
  · obtain ⟨col, hcol, rfl⟩ := List.mem_map.1 hfield
    exact ⟨Nat.le_add_right _ _, (layout.placed.mem hcol).2⟩
  · obtain ⟨agg, hagg, rfl⟩ := List.mem_map.1 hfield
    exact ⟨Nat.le_add_right _ _, layout.inside agg hagg⟩

/-! ## The width of a row -/

/-- What the append functions keep: at most 32 columns and 32 aggregates, and a width of at
most 16 bytes for each, so that the 16-bit width does not wrap. -/
structure Bounded (layout : AggregateLayout) : Prop where
  columns_le : layout.columns.length ≤ 32
  aggregates_le : layout.aggregates.length ≤ 32
  rowWidth_le : layout.rowWidth ≤ 16 * (layout.columns.length + layout.aggregates.length)
  aligned : layout.rowWidth % 8 = 0

theorem Bounded.append {layout layout' : AggregateLayout} (h : Bounded layout)
    {call : AppendCall} (hok : layout.append call = .ok layout') : Bounded layout' := by
  have hwidth := h.rowWidth_le
  have haligned := h.aligned
  cases call with
  | column kind srcColIdx pgTypeOid numericScale =>
    rw [AggregateLayout.append, appendColumn] at hok
    by_cases hfull : 32 ≤ layout.columns.length
    · rw [if_pos hfull] at hok
      cases hok
    · rw [if_neg hfull] at hok
      obtain rfl := Except.ok.inj hok
      have hkind : (kind.width + 7) / 8 * 8 ≤ 16 := by cases kind <;> decide
      refine ⟨?_, h.aggregates_le, ?_, ?_⟩
      · simp only [List.length_append, List.length_singleton]
        omega
      · simp only [List.length_append, List.length_singleton]
        omega
      · dsimp only
        omega
  | aggregate kind srcColIdx pgAggOid numericScale =>
    rw [AggregateLayout.append, appendAggregate] at hok
    by_cases hfull : 32 ≤ layout.aggregates.length
    · rw [if_pos hfull] at hok
      cases hok
    · rw [if_neg hfull] at hok
      obtain rfl := Except.ok.inj hok
      have hkind : (kind.width + 7) / 8 * 8 ≤ 16 := by cases kind <;> decide
      refine ⟨h.columns_le, ?_, ?_, ?_⟩
      · simp only [List.length_append, List.length_singleton]
        omega
      · simp only [List.length_append, List.length_singleton]
        omega
      · dsimp only
        omega

theorem Bounded.layoutSeal {layout : AggregateLayout} (h : Bounded layout) :
    Bounded layout.layoutSeal := by
  have hwidth := h.rowWidth_le
  have haligned := h.aligned
  refine ⟨h.columns_le, h.aggregates_le, ?_, ?_⟩
  · change (layout.rowWidth + 7) / 8 * 8 ≤ 16 * (layout.columns.length + layout.aggregates.length)
    omega
  · change (layout.rowWidth + 7) / 8 * 8 % 8 = 0
    omega

theorem bounded_of_build {calls : List AppendCall} {layout : AggregateLayout}
    (h : build calls = .ok layout) : Bounded layout := by
  have hall : ∀ (calls : List AppendCall) (start stop : AggregateLayout), Bounded start →
      calls.foldlM AggregateLayout.append start = .ok stop → Bounded stop := by
    intro calls
    induction calls with
    | nil =>
      intro start stop hstart hok
      obtain rfl := Except.ok.inj hok
      exact hstart
    | cons call calls ih =>
      intro start stop hstart hok
      rw [List.foldlM_cons] at hok
      cases hcall : start.append call with
      | error e =>
        rw [hcall] at hok
        cases hok
      | ok next =>
        rw [hcall] at hok
        exact ih next stop (hstart.append hcall) hok
  rw [build] at h
  cases hfold : calls.foldlM AggregateLayout.append init with
  | error e =>
    rw [hfold] at h
    cases h
  | ok last =>
    rw [hfold] at h
    obtain rfl := Except.ok.inj h
    exact (hall calls init last ⟨by decide, by decide, by decide, by decide⟩ hfold).layoutSeal

end AggregateLayout
end PgYaap
