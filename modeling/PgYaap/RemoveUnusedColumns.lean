import Mathlib
import PgYaap.LogicalPlan

/-! # Pruning of unused columns

`RemoveUnusedColumns` walks a plan from its root and passes down which columns are
required; a scan keeps these and the columns of its own filters. A projection and an
aggregate ask for the columns of those of their expressions only that are required
themselves, although both go on evaluating all of them. -/
namespace PgYaap
namespace RemoveUnusedColumns
open LogicalPlan Expression

/-! ## The pass -/

/-- `AddBindingsForTables`. -/
def bindingsForTables (required : Finset ColumnBinding) (tables : Finset Nat) :
    Finset ColumnBinding :=
  required.filter fun b => b.tableIndex ∈ tables

/-- The columns of the expressions whose own output is required. -/
def requiredExpressions (required : Finset ColumnBinding) (allOutputsRequired : Bool)
    (tableIndex : Nat) (expressions : List Expression) : Finset ColumnBinding :=
  bindingsList ((expressions.zipIdx.filter fun x =>
    allOutputsRequired || ⟨tableIndex, x.2⟩ ∈ required).map Prod.fst)

/-- The columns a scan keeps; one that is asked for none keeps the first. -/
def selectedColumns (g : LogicalGet) (required : Finset ColumnBinding) : Finset Nat :=
  let selected := ((required ∪ bindingsList g.filters).filter fun b =>
    b.tableIndex = g.tableIndex).image ColumnBinding.columnIndex
  if selected = ∅ then {0} else selected

/-- `PruneRequiredColumns`. -/
def pruneRequiredColumns :
    LogicalOperator → Finset ColumnBinding → Bool → LogicalOperator
  | .get g, required, allOutputsRequired =>
    .get { g with projectedColumns :=
      if allOutputsRequired then [] else (selectedColumns g required).sort (· ≤ ·) }
  | .filter es child, required, allOutputsRequired =>
    .filter es (pruneRequiredColumns child (required ∪ bindingsList es) allOutputsRequired)
  | .projection t es child, required, allOutputsRequired =>
    .projection t es
      (pruneRequiredColumns child (requiredExpressions required allOutputsRequired t es) false)
  | .aggregate gi ai groups es child, required, allOutputsRequired =>
    .aggregate gi ai groups es (pruneRequiredColumns child
      (requiredExpressions required allOutputsRequired gi groups ∪
        requiredExpressions required allOutputsRequired ai es) false)
  | .distinct es child, required, allOutputsRequired =>
    .distinct es (pruneRequiredColumns child (required ∪ bindingsList es) allOutputsRequired)
  | .setOperation t all left right, _, _ =>
    .setOperation t all (pruneRequiredColumns left ∅ true) (pruneRequiredColumns right ∅ true)
  | .crossProduct left right, required, allOutputsRequired =>
    if allOutputsRequired then
      .crossProduct (pruneRequiredColumns left ∅ true) (pruneRequiredColumns right ∅ true)
    else
      .crossProduct (pruneRequiredColumns left (bindingsForTables required left.outputTables) false)
        (pruneRequiredColumns right (bindingsForTables required right.outputTables) false)
  | .join j left right, required, allOutputsRequired =>
    if allOutputsRequired then
      .join j (pruneRequiredColumns left ∅ true) (pruneRequiredColumns right ∅ true)
    else
      let leftRequired := bindingsForTables required left.outputTables ∪ bindingsList j.conditions
      let rightRequired := bindingsForTables required right.outputTables ∪
        bindingsForTables leftRequired right.outputTables
      let leftRequired := leftRequired ∪ bindingsForTables rightRequired left.outputTables
      let leftRequired := match j.operator with
        | .comparisonJoin => leftRequired
        | .dependentJoin | .delimJoin => leftRequired ∪ j.correlatedColumns.toFinset
      .join j (pruneRequiredColumns left leftRequired false)
        (pruneRequiredColumns right rightRequired false)
  | .delimGet t correlated, _, _ => .delimGet t correlated
  | .order orders child, required, allOutputsRequired =>
    .order orders (pruneRequiredColumns child (required ∪ bindingsList orders) allOutputsRequired)
  | .window t names partitions orders child, required, _ =>
    .window t names partitions orders (pruneRequiredColumns child
      (bindingsForTables required child.outputTables ∪ bindingsList partitions ∪
        bindingsList orders) false)
  | .limit limitCount limitOffset child, required, allOutputsRequired =>
    .limit limitCount limitOffset (pruneRequiredColumns child
      (required ∪ bindingsList limitCount.toList ∪ bindingsList limitOffset.toList)
      allOutputsRequired)

/-- `RemoveUnusedColumns::Optimize`. -/
def optimize (plan : LogicalOperator) : LogicalOperator := pruneRequiredColumns plan ∅ true

/-! ## What is asked of the pruned plan -/

/-- The columns the expressions of an operator refer to; a scan's filters are evaluated
within the scan. -/
def ownBindings : LogicalOperator → Finset ColumnBinding
  | .get g => bindingsList g.filters
  | .filter es _ => bindingsList es
  | .projection _ es _ => bindingsList es
  | .aggregate _ _ groups es _ => bindingsList groups ∪ bindingsList es
  | .distinct es _ => bindingsList es
  | .setOperation _ _ _ _ => ∅
  | .crossProduct _ _ => ∅
  | .join j _ _ => bindingsList j.conditions
  | .delimGet _ _ => ∅
  | .order orders _ => bindingsList orders
  | .window _ _ partitions orders _ => bindingsList partitions ∪ bindingsList orders
  | .limit limitCount limitOffset _ =>
    bindingsList limitCount.toList ∪ bindingsList limitOffset.toList

/-- Whether a scan reads a column (`BuildProjectedTableColumnRefs`). -/
def Projects (g : LogicalGet) (column : Nat) : Prop :=
  g.projectedColumns = [] ∨ column ∈ g.projectedColumns

/-- **Every column is kept**: below a plan whose operators refer to the columns `above`, each
scan reads all its columns that an operator over it or one of its own filters refers to. -/
def ColumnsKept : Finset ColumnBinding → LogicalOperator → Prop
  | above, .get g => ∀ column, ⟨g.tableIndex, column⟩ ∈ above ∪ ownBindings (.get g) →
      Projects g column
  | above, .filter es child => ColumnsKept (above ∪ ownBindings (.filter es child)) child
  | above, .projection t es child => ColumnsKept (above ∪ ownBindings (.projection t es child)) child
  | above, .aggregate gi ai groups es child =>
    ColumnsKept (above ∪ ownBindings (.aggregate gi ai groups es child)) child
  | above, .distinct es child => ColumnsKept (above ∪ ownBindings (.distinct es child)) child
  | above, .setOperation _ _ left right => ColumnsKept above left ∧ ColumnsKept above right
  | above, .crossProduct left right => ColumnsKept above left ∧ ColumnsKept above right
  | above, .join j left right =>
    ColumnsKept (above ∪ ownBindings (.join j left right)) left ∧
      ColumnsKept (above ∪ ownBindings (.join j left right)) right
  | _, .delimGet _ _ => True
  | above, .order orders child => ColumnsKept (above ∪ ownBindings (.order orders child)) child
  | above, .window t names partitions orders child =>
    ColumnsKept (above ∪ ownBindings (.window t names partitions orders child)) child
  | above, .limit limitCount limitOffset child =>
    ColumnsKept (above ∪ ownBindings (.limit limitCount limitOffset child)) child

/-! ## What the operators over a scan ask for -/

/-- What is asked of an operator: its whole output, and certain columns. -/
structure Demand where
  whole : Prop
  column : ColumnBinding → Prop

/-- An operator that hands its input on also asks for the columns it refers to. -/
def Demand.over (d : Demand) (own : Finset ColumnBinding) : Demand :=
  ⟨d.whole, fun b => d.column b ∨ b ∈ own⟩

/-- A computed column is asked for. -/
def Demand.asks (d : Demand) (tableIndex i : Nat) : Prop := d.whole ∨ d.column ⟨tableIndex, i⟩

/-- The columns of the expressions that are asked for themselves. -/
def Demand.of (d : Demand) (tableIndex : Nat) (expressions : List Expression)
    (b : ColumnBinding) : Prop :=
  ∃ i e, expressions[i]? = some e ∧ d.asks tableIndex i ∧ b ∈ e.bindings

/-- The whole output of a join is the whole output of both sides. -/
def Demand.side (d : Demand) (own : Finset ColumnBinding) : Demand :=
  ⟨d.whole, fun b => ¬ d.whole ∧ (d.column b ∨ b ∈ own)⟩

/-- **Every column that is referred to is asked for.** An expression of a filter, a join, a
sort, a distinct, a window or a limit always asks for its columns; one of a projection or an
aggregate only if its own output is asked for, and what was asked for above such an operator
ends there. A window does not ask for the whole output of its input. A scan that is asked for
no column reads the first one. -/
def AskedFor : Finset ColumnBinding → Demand → LogicalOperator → Prop
  | above, d, .get g => d.whole ∨ ∀ column, ⟨g.tableIndex, column⟩ ∈ above →
      d.column ⟨g.tableIndex, column⟩ ∨ ⟨g.tableIndex, column⟩ ∈ ownBindings (.get g) ∨
        column = 0 ∧ ∀ other, ¬ d.column ⟨g.tableIndex, other⟩ ∧
          ⟨g.tableIndex, other⟩ ∉ ownBindings (.get g)
  | above, d, .filter es child =>
    AskedFor (above ∪ bindingsList es) (d.over (bindingsList es)) child
  | above, d, .projection t es child =>
    AskedFor (above ∪ bindingsList es) ⟨False, d.of t es⟩ child
  | above, d, .aggregate gi ai groups es child =>
    AskedFor (above ∪ (bindingsList groups ∪ bindingsList es))
      ⟨False, fun b => d.of gi groups b ∨ d.of ai es b⟩ child
  | above, d, .distinct es child =>
    AskedFor (above ∪ bindingsList es) (d.over (bindingsList es)) child
  | above, _, .setOperation _ _ left right =>
    AskedFor above ⟨True, fun _ => False⟩ left ∧ AskedFor above ⟨True, fun _ => False⟩ right
  | above, d, .crossProduct left right =>
    AskedFor above (d.side ∅) left ∧ AskedFor above (d.side ∅) right
  | above, d, .join j left right =>
    AskedFor (above ∪ bindingsList j.conditions)
        (d.side (bindingsList j.conditions ∪
          if j.operator = .comparisonJoin then ∅ else j.correlatedColumns.toFinset)) left ∧
      AskedFor (above ∪ bindingsList j.conditions) (d.side (bindingsList j.conditions)) right
  | _, _, .delimGet _ _ => True
  | above, d, .order orders child =>
    AskedFor (above ∪ bindingsList orders) (d.over (bindingsList orders)) child
  | above, d, .window _ _ partitions orders child =>
    AskedFor (above ∪ (bindingsList partitions ∪ bindingsList orders))
      ⟨False, fun b => d.column b ∨ b ∈ bindingsList partitions ∪ bindingsList orders⟩ child
  | above, d, .limit limitCount limitOffset child =>
    AskedFor (above ∪ (bindingsList limitCount.toList ∪ bindingsList limitOffset.toList))
      (d.over (bindingsList limitCount.toList ∪ bindingsList limitOffset.toList)) child

/-! ## The pass meets the demand -/

/-- A required set and a demand agree on the tables an operator puts out. -/
structure Agree (tables : Finset Nat) (required : Finset ColumnBinding)
    (allOutputsRequired : Bool) (d : Demand) : Prop where
  whole : d.whole ↔ allOutputsRequired = true
  column : ∀ b : ColumnBinding, b.tableIndex ∈ tables → (d.column b ↔ b ∈ required)

section Agree
variable {tables : Finset Nat} {required : Finset ColumnBinding} {allOutputsRequired : Bool}
  {d : Demand}

theorem Agree.mono (h : Agree tables required allOutputsRequired d) {fewer : Finset Nat}
    (hsub : fewer ⊆ tables) : Agree fewer required allOutputsRequired d :=
  ⟨h.whole, fun b hb => h.column b (hsub hb)⟩

theorem Agree.over (h : Agree tables required allOutputsRequired d) (own : Finset ColumnBinding) :
    Agree tables (required ∪ own) allOutputsRequired (d.over own) := by
  refine ⟨h.whole, ?_⟩
  intro b hb
  rw [Finset.mem_union]
  exact or_congr (h.column b hb) Iff.rfl

theorem mem_requiredExpressions {t : Nat} {es : List Expression} {b : ColumnBinding} :
    b ∈ requiredExpressions required allOutputsRequired t es ↔
      ∃ i e, es[i]? = some e ∧ (allOutputsRequired = true ∨ ⟨t, i⟩ ∈ required) ∧
        b ∈ e.bindings := by
  rw [requiredExpressions, mem_bindingsList]
  constructor
  · rintro ⟨e, he, hb⟩
    obtain ⟨⟨e', i⟩, hmem, rfl⟩ := List.mem_map.1 he
    obtain ⟨hzip, hreq⟩ := List.mem_filter.1 hmem
    refine ⟨i, e', List.mem_zipIdx_iff_getElem?.1 hzip, ?_, hb⟩
    simpa using hreq
  · rintro ⟨i, e, he, hreq, hb⟩
    refine ⟨e, List.mem_map.2 ⟨(e, i), List.mem_filter.2 ⟨?_, ?_⟩, rfl⟩, hb⟩
    · exact List.mem_zipIdx_iff_getElem?.2 he
    · simpa using hreq

theorem Agree.of (h : Agree tables required allOutputsRequired d) {t : Nat} (ht : t ∈ tables)
    (es : List Expression) (b : ColumnBinding) :
    d.of t es b ↔ b ∈ requiredExpressions required allOutputsRequired t es := by
  rw [mem_requiredExpressions]
  have hasks : ∀ i, d.asks t i ↔ allOutputsRequired = true ∨ ⟨t, i⟩ ∈ required := fun i =>
    or_congr h.whole (h.column ⟨t, i⟩ ht)
  simp only [Demand.of, hasks]

/-- The whole output of both sides. -/
theorem agree_whole (d : Demand) (hwhole : d.whole) (own : Finset ColumnBinding) :
    Agree tables ∅ true (d.side own) :=
  ⟨iff_of_true hwhole rfl, fun _ _ =>
    iff_of_false (fun hcol => hcol.1 hwhole) (Finset.notMem_empty _)⟩

/-- At the root of a plan everything is asked for. -/
theorem agree_root (tables : Finset Nat) : Agree tables ∅ true ⟨True, fun _ => False⟩ :=
  ⟨iff_of_true trivial rfl, fun _ _ => iff_of_false id (Finset.notMem_empty _)⟩

theorem mem_bindingsForTables {b : ColumnBinding} :
    b ∈ bindingsForTables required tables ↔ b ∈ required ∧ b.tableIndex ∈ tables :=
  Finset.mem_filter

end Agree

/-! ## The scan -/

theorem mem_selectedColumns {g : LogicalGet} {required : Finset ColumnBinding} {column : Nat} :
    column ∈ selectedColumns g required ↔
      ⟨g.tableIndex, column⟩ ∈ required ∨ ⟨g.tableIndex, column⟩ ∈ bindingsList g.filters ∨
        column = 0 ∧ ∀ other, ⟨g.tableIndex, other⟩ ∉ required ∧
          ⟨g.tableIndex, other⟩ ∉ bindingsList g.filters := by
  have hmem : ∀ c, c ∈ ((required ∪ bindingsList g.filters).filter fun b =>
      b.tableIndex = g.tableIndex).image ColumnBinding.columnIndex ↔
        ⟨g.tableIndex, c⟩ ∈ required ∨ ⟨g.tableIndex, c⟩ ∈ bindingsList g.filters := by
    intro c
    rw [← Finset.mem_union, Finset.mem_image]
    constructor
    · rintro ⟨⟨t, c'⟩, hb, rfl⟩
      obtain ⟨hin, ht⟩ := Finset.mem_filter.1 hb
      exact ht ▸ hin
    · intro hin
      exact ⟨_, Finset.mem_filter.2 ⟨hin, rfl⟩, rfl⟩
  rw [selectedColumns]
  split
  · next hempty =>
    have hnone : ∀ c, ¬ (⟨g.tableIndex, c⟩ ∈ required ∨
        ⟨g.tableIndex, c⟩ ∈ bindingsList g.filters) := by
      intro c hc
      exact Finset.notMem_empty c (hempty ▸ (hmem c).2 hc)
    have hfirst : ∀ other, (⟨g.tableIndex, other⟩ : ColumnBinding) ∉ required ∧
        (⟨g.tableIndex, other⟩ : ColumnBinding) ∉ bindingsList g.filters := fun other =>
      not_or.1 (hnone other)
    rw [Finset.mem_singleton]
    constructor
    · exact fun hzero => Or.inr (Or.inr ⟨hzero, hfirst⟩)
    · rintro (hin | hin | ⟨hzero, -⟩)
      · exact absurd (Or.inl hin) (hnone column)
      · exact absurd (Or.inr hin) (hnone column)
      · exact hzero
  · next hne =>
    obtain ⟨c, hc⟩ := Finset.nonempty_iff_ne_empty.2 hne
    rw [hmem]
    constructor
    · rintro (hin | hin)
      · exact Or.inl hin
      · exact Or.inr (Or.inl hin)
    · rintro (hin | hin | ⟨-, hfirst⟩)
      · exact Or.inl hin
      · exact Or.inr hin
      · exact absurd ((hmem c).1 hc) (not_or.2 (hfirst c))

theorem selectedColumns_sort_ne_nil (g : LogicalGet) (required : Finset ColumnBinding) :
    (selectedColumns g required).sort (· ≤ ·) ≠ [] := by
  intro hnil
  have hempty : selectedColumns g required = ∅ := by
    rw [← Finset.sort_toFinset (selectedColumns g required) (· ≤ ·), hnil]
    rfl
  rw [selectedColumns] at hempty
  split at hempty
  · exact absurd hempty (Finset.singleton_ne_empty 0)
  · next hne => exact hne hempty

theorem columnsKept_get_iff {g : LogicalGet} {above required : Finset ColumnBinding}
    {allOutputsRequired : Bool} {d : Demand}
    (h : Agree {g.tableIndex} required allOutputsRequired d) :
    ColumnsKept above (pruneRequiredColumns (.get g) required allOutputsRequired) ↔
      AskedFor above d (.get g) := by
  rw [pruneRequiredColumns, ColumnsKept, AskedFor]
  have hcol : ∀ c, d.column ⟨g.tableIndex, c⟩ ↔ ⟨g.tableIndex, c⟩ ∈ required := fun c =>
    h.column ⟨g.tableIndex, c⟩ (Finset.mem_singleton_self _)
  by_cases hall : allOutputsRequired = true
  · refine iff_of_true ?_ (Or.inl (h.whole.2 hall))
    intro column _
    exact Or.inl (by simp [hall])
  · have hprojects : ∀ column, Projects { g with projectedColumns :=
        if allOutputsRequired then [] else (selectedColumns g required).sort (· ≤ ·) } column ↔
          column ∈ selectedColumns g required := by
      intro column
      simp only [Projects, hall, Bool.false_eq_true, if_false, selectedColumns_sort_ne_nil,
        false_or, Finset.mem_sort]
    have hwhole : ¬ d.whole := fun hw => hall (h.whole.1 hw)
    simp only [hprojects, mem_selectedColumns, ownBindings, hcol, hwhole, false_or,
      Finset.mem_union]
    constructor
    · exact fun hkept column habove => hkept column (Or.inl habove)
    · rintro hasked column (habove | hfilter)
      · exact hasked column habove
      · exact Or.inr (Or.inl hfilter)

/-! ## Every operator -/

theorem columnsKept_prune_iff (op : LogicalOperator) :
    ∀ {above required : Finset ColumnBinding} {allOutputsRequired : Bool} {d : Demand},
      Agree op.outputTables required allOutputsRequired d →
        (ColumnsKept above (pruneRequiredColumns op required allOutputsRequired) ↔
          AskedFor above d op) := by
  induction op with
  | get g => exact fun h => columnsKept_get_iff h
  | filter es child ih => exact fun h => ih (h.over _)
  | projection t es child ih =>
    intro _ _ _ d h
    refine ih ⟨iff_of_false id Bool.false_ne_true, ?_⟩
    intro b _
    exact h.of (Finset.mem_insert_self t _) es b
  | aggregate gi ai groups es child ih =>
    intro _ _ _ d h
    refine ih ⟨iff_of_false id Bool.false_ne_true, ?_⟩
    intro b _
    rw [Finset.mem_union]
    refine or_congr (h.of (Finset.mem_insert_self gi _) groups b) ?_
    exact h.of (Finset.mem_insert_of_mem (Finset.mem_insert_self ai _)) es b
  | distinct es child ih => exact fun h => ih (h.over _)
  | setOperation t all left right ihl ihr =>
    intro above _ _ _ _
    exact and_congr (ihl (agree_root _)) (ihr (agree_root _))
  | crossProduct left right ihl ihr =>
    intro above required all d h
    by_cases hall : all = true
    · subst hall
      have hwhole := h.whole.2 rfl
      exact and_congr (ihl (agree_whole d hwhole ∅)) (ihr (agree_whole d hwhole ∅))
    · rw [pruneRequiredColumns, if_neg hall]
      have hnot : ¬ d.whole := fun hw => hall (h.whole.1 hw)
      refine and_congr (ihl ⟨iff_of_false hnot Bool.false_ne_true, ?_⟩)
        (ihr ⟨iff_of_false hnot Bool.false_ne_true, ?_⟩)
      · intro b hb
        rw [mem_bindingsForTables, ← h.column b (Finset.mem_union_left _ hb)]
        simp [Demand.side, hnot, hb]
      · intro b hb
        rw [mem_bindingsForTables, ← h.column b (Finset.mem_union_right _ hb)]
        simp [Demand.side, hnot, hb]
  | join j left right ihl ihr =>
    intro above required all d h
    by_cases hall : all = true
    · subst hall
      have hwhole := h.whole.2 rfl
      exact and_congr (ihl (agree_whole d hwhole _)) (ihr (agree_whole d hwhole _))
    · rw [pruneRequiredColumns, if_neg hall]
      have hnot : ¬ d.whole := fun hw => hall (h.whole.1 hw)
      refine and_congr (ihl ⟨iff_of_false hnot Bool.false_ne_true, ?_⟩)
        (ihr ⟨iff_of_false hnot Bool.false_ne_true, ?_⟩)
      · intro b hb
        have hcol := h.column b (Finset.mem_union_left _ hb)
        cases j.operator <;>
          simp only [Demand.side, hnot, not_false_eq_true, true_and, Finset.mem_union,
            mem_bindingsForTables, hb, and_true, hcol, reduceCtorEq, if_true, if_false,
            Finset.notMem_empty] <;> tauto
      · intro b hb
        have hcol := h.column b (Finset.mem_union_right _ hb)
        simp only [Demand.side, hnot, not_false_eq_true, true_and, Finset.mem_union,
          mem_bindingsForTables, hb, and_true, hcol]
        tauto
  | delimGet t correlated => exact fun _ => Iff.rfl
  | order orders child ih => exact fun h => ih (h.over _)
  | window t names partitions orders child ih =>
    intro _ _ _ d h
    refine ih ⟨iff_of_false id Bool.false_ne_true, ?_⟩
    intro b hb
    have hcol := h.column b (Finset.mem_insert_of_mem hb)
    simp only [Finset.mem_union, mem_bindingsForTables, hb, and_true, hcol]
    tauto
  | limit limitCount limitOffset child ih =>
    intro _ _ _ d h
    have hover := h.over (bindingsList limitCount.toList ∪ bindingsList limitOffset.toList)
    rw [← Finset.union_assoc] at hover
    exact ih hover

/-- **The pass keeps every column exactly when every column is asked for.** -/
theorem columnsKept_optimize_iff (plan : LogicalOperator) :
    ColumnsKept ∅ (optimize plan) ↔ AskedFor ∅ ⟨True, fun _ => False⟩ plan :=
  columnsKept_prune_iff plan (agree_root _)

/-- `SELECT count(*) FROM t GROUP BY b`, where `b` is the second column of `t`. -/
def countByGroup : LogicalOperator :=
  .projection 3 [.columnRef ⟨2, 0⟩]
    (.aggregate 1 2 [.columnRef ⟨0, 1⟩] [.aggregate "count" 2803 false []]
      (.get ⟨0, 16384, [], []⟩))

/-- The scan of `countByGroup` keeps the first column only. -/
theorem not_columnsKept_optimize : ¬ ∀ plan, ColumnsKept ∅ (optimize plan) := by
  intro h
  have hkept := (columnsKept_prune_iff countByGroup (agree_root _)).1 (h countByGroup)
  have hgroup : ColumnBinding.mk 0 1 ∈ (∅ ∪ bindingsList [.columnRef ⟨2, 0⟩] ∪
      (bindingsList [.columnRef ⟨0, 1⟩] ∪
        bindingsList [.aggregate "count" 2803 false []]) : Finset ColumnBinding) := by decide
  rcases hkept with hwhole | hcolumns
  · exact hwhole
  · rcases hcolumns 1 hgroup with hof | hfilter | ⟨hzero, -⟩
    · rcases hof with ⟨i, e, he, hasks, -⟩ | ⟨i, e, he, -, hb⟩
      · rcases hasks with hwhole | ⟨i', e', he', -, hb'⟩
        · exact hwhole
        · cases i' with
          | zero =>
            cases he'
            rw [bindings, Finset.mem_singleton] at hb'
            cases hb'
          | succ i' => exact absurd he' (by simp)
      · cases i with
        | zero =>
          cases he
          exact absurd hb (Finset.notMem_empty _)
        | succ i => exact absurd he (by simp)
    · exact absurd hfilter (Finset.notMem_empty _)
    · exact absurd hzero Nat.one_ne_zero

end RemoveUnusedColumns
end PgYaap
