import PgYaap.PipelineDescriptors

/-! # Copies of pipelines

What a worker reads of a descriptor is the operator that the leader wrote, but for what the counts
cut off: a vector keeps as many values as its length modulo the range of its count. -/
namespace PgYaap
namespace PipelineDescriptors

/-! ## Vectors -/

/-- What a count of 16 bits leaves of a vector. -/
def cut {α : Type} (values : List α) : List α := values.take (UInt16.ofNat values.length).toNat

/-- What a count of 32 bits leaves of a vector. -/
def cutChars (values : List UInt8) : List UInt8 :=
  values.take (UInt32.ofNat values.length).toNat

/-- A vector that its count can hold is kept. -/
theorem take_mod_eq_self_iff {α : Type} {values : List α} {range : Nat} (h : 0 < range) :
    values.take (values.length % range) = values ↔ values.length < range := by
  rw [List.take_eq_self_iff]
  refine ⟨fun hle => hle.trans_lt (Nat.mod_lt _ h), fun hlt => ?_⟩
  rw [Nat.mod_eq_of_lt hlt]

theorem cut_eq_self_iff {α : Type} {values : List α} :
    cut values = values ↔ values.length < 2 ^ 16 := take_mod_eq_self_iff (by decide)

theorem cutChars_eq_self_iff {values : List UInt8} :
    cutChars values = values ↔ values.length < 2 ^ 32 := take_mod_eq_self_iff (by decide)

/-- Memory that has only been added to. -/
structure Grown (dsa dsa' : Dsa) : Prop where
  arrays : dsa.arrays <+: dsa'.arrays
  ops : dsa'.ops = dsa.ops
  pipelines : dsa'.pipelines = dsa.pipelines

theorem Grown.refl (dsa : Dsa) : Grown dsa dsa := ⟨List.prefix_rfl, rfl, rfl⟩

theorem Grown.trans {d e f : Dsa} (h : Grown d e) (h' : Grown e f) : Grown d f :=
  ⟨h.arrays.trans h'.arrays, h'.ops.trans h.ops, h'.pipelines.trans h.pipelines⟩

theorem deref_of_prefix {α : Type} {store store' : List α} (h : store <+: store') {p : DsaPointer}
    {a : α} (ha : deref store p = some a) : deref store' p = some a := by
  obtain ⟨added, rfl⟩ := h
  cases p with
  | zero => cases ha
  | succ n =>
    obtain ⟨hlt, -⟩ := List.getElem?_eq_some_iff.1 ha
    exact (List.getElem?_append_left hlt).trans ha

section Vectors

variable {α κ : Type} [Stored α]

/-- **A serialized vector** is read back, up to the count. -/
theorem serializeVector_spec (count : Nat → κ) (values : List α) (dsa : Dsa) :
    ∃ p dsa', serializeVector count values dsa = ((p, count values.length), dsa') ∧
      Grown dsa dsa' ∧ ∀ later, dsa'.arrays <+: later.arrays → ∀ n,
        readVector later p n = some (values.take n) := by
  cases values with
  | nil =>
    refine ⟨_, _, rfl, Grown.refl dsa, fun later _ n => ?_⟩
    rw [readVector, if_neg fun h => h.2 rfl, List.take_nil]
  | cons v vs =>
    refine ⟨_, _, rfl, ⟨List.prefix_append _ _, rfl, rfl⟩, fun later hlater n => ?_⟩
    have hblock : deref later.arrays (dsa.arrays.length + 1) = some (Stored.toBlock (v :: vs)) :=
      deref_of_prefix hlater (List.getElem?_concat_length)
    rw [readVector, hblock, Option.bind_some, Stored.ofBlock_toBlock, Option.map_some]
    by_cases hn : 0 < n
    · rw [if_pos ⟨hn, Nat.succ_ne_zero _⟩]
    · rw [if_neg fun h => hn h.1, Nat.eq_zero_of_not_pos hn, List.take_zero]

end Vectors

/-! ## Operators -/

/-- **The copy of an operator**: the same kind and the same fields, with the vectors that the
counts leave. Filters and projections also say where their vectors lie. -/
def CopyOf : PhysicalOperator → PhysicalOperator → Prop
  | .hashAggregate op, copy => copy = .hashAggregate
      { op with groupKeys := cut op.groupKeys, aggFuncs := cut op.aggFuncs }
  | .perfectHashAggregate op, copy => copy = .perfectHashAggregate
      { op with groupKeys := cut op.groupKeys, aggFuncs := cut op.aggFuncs }
  | .filter op, copy => ∃ inputsDp exprsDp stepsDp stringConstsDp, copy = .filter
      { op with
        filterInputs := cut op.filterInputs
        filterExprs := cut op.filterExprs
        filterSteps := cut op.filterSteps
        filterStringConsts := cutChars op.filterStringConsts
        filterInputsDp := inputsDp
        filterExprsDp := exprsDp
        filterStepsDp := stepsDp
        filterStringConstsDp := stringConstsDp }
  | .projection op, copy => ∃ exprDescsDp stepsDp, copy = .projection
      { op with
        exprDescs := cut op.exprDescs
        steps := cut op.steps
        exprDescsDp := exprDescsDp
        stepsDp := stepsDp }
  | op, copy => copy = op

/-- A descriptor that every worker reads as a copy of the operator, also later on. -/
def Describes (dsa : Dsa) (descriptor : OpDescriptor) (op : PhysicalOperator) : Prop :=
  ∀ later : Dsa, dsa.arrays <+: later.arrays →
    ∃ copy, reconstructParams later descriptor = some copy ∧ CopyOf op copy

theorem Describes.later {dsa later : Dsa} {d : OpDescriptor} {op : PhysicalOperator}
    (h : Describes dsa d op) (hlater : dsa.arrays <+: later.arrays) : Describes later d op :=
  fun last hlast => h last (hlater.trans hlast)

theorem emitHashAgg_spec (kind : HashAggOpBody → OpDescriptor) (op : PhysicalHashAggregate)
    (dsa : Dsa) :
    ∃ body dsa', emitHashAgg kind op dsa = (kind body, dsa') ∧ Grown dsa dsa' ∧
      ∀ later : Dsa, dsa'.arrays <+: later.arrays → reconstructHashAgg later body =
        some { op with groupKeys := cut op.groupKeys, aggFuncs := cut op.aggFuncs } := by
  obtain ⟨keysDp, dsa₁, hkeys, hgrown₁, hread₁⟩ :=
    serializeVector_spec UInt16.ofNat op.groupKeys dsa
  obtain ⟨aggsDp, dsa₂, haggs, hgrown₂, hread₂⟩ :=
    serializeVector_spec UInt16.ofNat op.aggFuncs dsa₁
  simp only [emitHashAgg, serializeUInt16Vector, serializeAggFuncVector, hkeys, haggs]
  refine ⟨_, dsa₂, rfl, hgrown₁.trans hgrown₂, fun later hlater => ?_⟩
  rw [reconstructHashAgg]
  simp only [hread₁ later (hgrown₂.arrays.trans hlater), hread₂ later hlater,
    Option.bind_eq_bind, Option.bind_some]
  rfl

theorem emitFilter_spec (op : PhysicalFilter) (dsa : Dsa) :
    ∃ body dsa', emitFilter op dsa = (.filter body, dsa') ∧ Grown dsa dsa' ∧
      Describes dsa' (.filter body) (.filter op) := by
  obtain ⟨p₁, dsa₁, h₁, hgrown₁, hread₁⟩ := serializeVector_spec UInt16.ofNat op.filterInputs dsa
  obtain ⟨p₂, dsa₂, h₂, hgrown₂, hread₂⟩ := serializeVector_spec UInt16.ofNat op.filterExprs dsa₁
  obtain ⟨p₃, dsa₃, h₃, hgrown₃, hread₃⟩ := serializeVector_spec UInt16.ofNat op.filterSteps dsa₂
  obtain ⟨p₄, dsa₄, h₄, hgrown₄, hread₄⟩ :=
    serializeVector_spec UInt32.ofNat op.filterStringConsts dsa₃
  simp only [emitFilter, serializeFilterInputVector, serializeFilterExprVector,
    serializeFilterStepVector, serializeCharVector, h₁, h₂, h₃, h₄]
  have hgrown₃₄ := hgrown₃.trans hgrown₄
  have hgrown₂₄ := hgrown₂.trans hgrown₃₄
  refine ⟨_, dsa₄, rfl, hgrown₁.trans hgrown₂₄, fun later hlater => ⟨_, ?_, p₁, p₂, p₃, p₄, rfl⟩⟩
  rw [reconstructParams, reconstructFilter]
  simp only [hread₁ later (hgrown₂₄.arrays.trans hlater),
    hread₂ later (hgrown₃₄.arrays.trans hlater), hread₃ later (hgrown₄.arrays.trans hlater),
    hread₄ later hlater, Option.bind_eq_bind, Option.bind_some]
  rfl

theorem emitProjection_spec (op : PhysicalProjection) (dsa : Dsa) :
    ∃ body dsa', emitProjection op dsa = (.projection body, dsa') ∧ Grown dsa dsa' ∧
      Describes dsa' (.projection body) (.projection op) := by
  obtain ⟨p₁, dsa₁, h₁, hgrown₁, hread₁⟩ := serializeVector_spec UInt16.ofNat op.exprDescs dsa
  obtain ⟨p₂, dsa₂, h₂, hgrown₂, hread₂⟩ := serializeVector_spec UInt16.ofNat op.steps dsa₁
  simp only [emitProjection, serializeProjectExprVector, serializeProjectStepVector, h₁, h₂]
  refine ⟨_, dsa₂, rfl, hgrown₁.trans hgrown₂, fun later hlater => ⟨_, ?_, p₁, p₂, rfl⟩⟩
  rw [reconstructParams, reconstructProjection]
  simp only [hread₁ later (hgrown₂.arrays.trans hlater), hread₂ later hlater,
    Option.bind_eq_bind, Option.bind_some]
  rfl

/-- **What is written of an operator** describes it. -/
theorem emit_spec (op : PhysicalOperator) (dsa : Dsa) :
    Grown dsa (emit op dsa).2 ∧ Describes (emit op dsa).2 (emit op dsa).1 op := by
  cases op with
  | hashAggregate op =>
    obtain ⟨body, dsa', hemit, hgrown, hread⟩ := emitHashAgg_spec .hashAggregate op dsa
    rw [emit, hemit]
    refine ⟨hgrown, fun later hlater => ⟨_, ?_, rfl⟩⟩
    rw [reconstructParams, hread later hlater]
    rfl
  | perfectHashAggregate op =>
    obtain ⟨body, dsa', hemit, hgrown, hread⟩ := emitHashAgg_spec .perfectHashAggregate op dsa
    rw [emit, hemit]
    refine ⟨hgrown, fun later hlater => ⟨_, ?_, rfl⟩⟩
    rw [reconstructParams, hread later hlater]
    rfl
  | filter op =>
    obtain ⟨body, dsa', hemit, hgrown, hdescribes⟩ := emitFilter_spec op dsa
    rw [emit, hemit]
    exact ⟨hgrown, hdescribes⟩
  | projection op =>
    obtain ⟨body, dsa', hemit, hgrown, hdescribes⟩ := emitProjection_spec op dsa
    rw [emit, hemit]
    exact ⟨hgrown, hdescribes⟩
  -- the other operators have pointers in place of vectors
  | seqScan _ | delimScan _ | hashJoin _ | crossProduct _ | order _ | topN _ | output _ =>
    exact ⟨Grown.refl dsa, fun _ _ => ⟨_, rfl, rfl⟩⟩

/-! ## Exact copies -/

/-- The operator but for where the vectors of filters and projections lie. -/
def PhysicalOperator.withoutPlaces : PhysicalOperator → PhysicalOperator
  | filter op => filter { op with
      filterInputsDp := invalidDsaPointer
      filterExprsDp := invalidDsaPointer
      filterStepsDp := invalidDsaPointer
      filterStringConstsDp := invalidDsaPointer }
  | projection op => projection { op with
      exprDescsDp := invalidDsaPointer
      stepsDp := invalidDsaPointer }
  | op => op

/-- The counts of a descriptor can hold the lengths of the vectors. -/
def CountsFit : PhysicalOperator → Prop
  | .hashAggregate op | .perfectHashAggregate op =>
    op.groupKeys.length < 2 ^ 16 ∧ op.aggFuncs.length < 2 ^ 16
  | .filter op => op.filterInputs.length < 2 ^ 16 ∧ op.filterExprs.length < 2 ^ 16 ∧
    op.filterSteps.length < 2 ^ 16 ∧ op.filterStringConsts.length < 2 ^ 32
  | .projection op => op.exprDescs.length < 2 ^ 16 ∧ op.steps.length < 2 ^ 16
  | _ => True

/-- **A copy is exact** when the counts fit, and then only. -/
theorem CopyOf.exact_iff {op copy : PhysicalOperator} (h : CopyOf op copy) :
    copy.withoutPlaces = op.withoutPlaces ↔ CountsFit op := by
  cases op with
  | hashAggregate op | perfectHashAggregate op =>
    obtain rfl := h
    cases op
    simp [PhysicalOperator.withoutPlaces, CountsFit, cut_eq_self_iff]
  | filter op =>
    obtain ⟨_, _, _, _, rfl⟩ := h
    cases op
    simp [PhysicalOperator.withoutPlaces, CountsFit, cut_eq_self_iff, cutChars_eq_self_iff]
  | projection op =>
    obtain ⟨_, _, rfl⟩ := h
    cases op
    simp [PhysicalOperator.withoutPlaces, CountsFit, cut_eq_self_iff]
  | seqScan _ | delimScan _ | hashJoin _ | crossProduct _ | order _ | topN _ | output _ =>
    obtain rfl := h
    exact iff_of_true rfl trivial

end PipelineDescriptors
end PgYaap
