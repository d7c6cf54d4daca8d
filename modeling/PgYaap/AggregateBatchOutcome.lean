import PgYaap.AggregateHashTableRuns

/-! # What a batch does to a table

After a batch every group of the table and of the batch has one row, and every input has the row
of its group. Looking up and inserting the inputs one at a time leaves the same rows, with the
new ones under other numbers. -/
namespace PgYaap

open ColumnSlots AggregateStates HashJoinBuild ProbedTables TupleDataCollection

namespace AggregateHashTable

/-- The group columns of a row. -/
abbrev groupAt (layout : AggregateLayout) (t : TupleDataCollection) (r : Nat) : List Datum :=
  t.decodeRow layout.toTupleDataLayout r

/-- The result of an input: its row, which has its group, and whether the input inserted it, which
the first input of a group does that the table did not have. -/
structure Answers (layout : AggregateLayout) (chunk : DataChunk) (inputs : List BatchProbeInput)
    (t t' : TupleDataCollection) (j : Nat) (input : BatchProbeInput) (res : BatchProbeResult) :
    Prop where
  rowIdx : res.rowIdx = input.rowIdx
  canonical_lt : res.canonicalRowIdx < t'.rowCount
  canonical : groupAt layout t' res.canonicalRowIdx = input.group layout chunk
  inserted : res.inserted = true ↔
    (∀ r < t.rowCount, groupAt layout t r ≠ input.group layout chunk) ∧
    ∀ i < j, ∀ input', inputs[i]? = some input' →
      input'.group layout chunk ≠ input.group layout chunk

/-- **What a batch leaves**, from the row store `t` before it. -/
structure Outcome (layout : AggregateLayout) (chunk : DataChunk) (inputs : List BatchProbeInput)
    (t : TupleDataCollection) (aht' : AggregateHashTable) (t' : TupleDataCollection)
    (results : List (Option BatchProbeResult)) : Prop where
  rowCount_le : t.rowCount ≤ t'.rowCount
  kept : ∀ r < t.rowCount, groupAt layout t' r = groupAt layout t r ∧
    t'.states layout r = t.states layout r
  new : ∀ r, t.rowCount ≤ r → r < t'.rowCount → t'.states layout r = initStates
  groups : ∀ k, (∃ r < t'.rowCount, groupAt layout t' r = k) ↔
    (∃ r < t.rowCount, groupAt layout t r = k) ∨ ∃ input ∈ inputs, input.group layout chunk = k
  once : ∀ r < t'.rowCount, ∀ r' < t'.rowCount, groupAt layout t' r = groupAt layout t' r' → r = r'
  entered : ∀ r < t'.rowCount, ∃! slot, ∃ salt, aht'.entries slot = some (salt, r)
  length : results.length = inputs.length
  answers : ∀ (j : Nat) (input : BatchProbeInput), inputs[j]? = some input →
    ∃ res, results[j]? = some (some res) ∧ Answers layout chunk inputs t t' j input res

/-- **The same rows under other numbers**, where the first `n` keep theirs. -/
structure Renumbering (layout : AggregateLayout) (n : Nat) (t t' : TupleDataCollection)
    (number : Nat → Nat) : Prop where
  rowCount : t'.rowCount = t.rowCount
  lt : ∀ r < t.rowCount, number r < t.rowCount
  inj : ∀ r < t.rowCount, ∀ r' < t.rowCount, number r = number r' → r = r'
  old : ∀ r < n, number r = r
  group : ∀ r < t.rowCount, groupAt layout t' (number r) = groupAt layout t r
  states : ∀ r < t.rowCount, t'.states layout (number r) = t.states layout r

section Outcomes

variable {layout : AggregateLayout} {aht aht' : AggregateHashTable}
  {t t' : TupleDataCollection} {rows rows' : List (StoredRow layout)}

/-- Two tables with the same rows, in another order. -/
theorem Represents.renumbering (h : Represents layout aht t rows)
    (h' : Represents layout aht' t' rows') (hperm : rows.Perm rows') {n : Nat}
    (hn : n ≤ t.rowCount) (hsame : ∀ r < n, rows'[r]? = rows[r]?) :
    ∃ number, Renumbering layout n t t' number := by
  have hcount : t'.rowCount = t.rowCount := by
    rw [h'.holds.rowCount, h.holds.rowCount, hperm.length_eq]
  -- a row goes where the other table has its group
  have hnumber : ∀ r, ∃ r', r < t.rowCount →
      r' < t'.rowCount ∧ groupAt layout t' r' = groupAt layout t r := by
    intro r
    by_cases hr : r < t.rowCount
    · have hmem := (hperm.map Prod.fst).mem_iff.1 (h.mem_iff.2 ⟨r, hr, rfl⟩)
      obtain ⟨r', hr'⟩ := h'.mem_iff.1 hmem
      exact ⟨r', fun _ => hr'⟩
    · exact ⟨0, fun hlt => absurd hlt hr⟩
  choose number hnumber using hnumber
  have hpair : ∀ r < t.rowCount, t'.states layout (number r) = t.states layout r := by
    intro r hr
    obtain ⟨hlt, hgroup⟩ := hnumber r hr
    have hmem := hperm.mem_iff.1 (List.mem_of_getElem? (h.getElem?_eq hr))
    have hmem' := List.mem_of_getElem? (h'.getElem?_eq hlt)
    have hrow := List.inj_on_of_nodup_map h'.indexes.nodup hmem' hmem hgroup
    exact (Prod.mk.inj hrow).2
  refine ⟨number, hcount, fun r hr => ?_, fun r hr r' hr' heq => ?_, fun r hr => ?_,
    fun r hr => (hnumber r hr).2, hpair⟩
  · have hlt := (hnumber r hr).1
    omega
  · have hgroup := (hnumber r hr).2
    rw [heq, (hnumber r' hr').2] at hgroup
    exact h.index_eq hr hr' hgroup.symm
  · obtain ⟨hlt, hgroup⟩ := hnumber r (by omega)
    have hrow := h'.getElem?_eq (show r < t'.rowCount by omega)
    rw [hsame r hr, h.getElem?_eq (by omega)] at hrow
    have hold := (Prod.mk.inj (Option.some.inj hrow)).1
    exact h'.index_eq hlt (by omega) (hgroup.trans hold)

namespace Batch

variable {b : Batch layout} {out out' : BatchOutput} {st st' : BatchState}
  {added added' : List (List Datum)}

theorem Ends.mem_added_iff (h : b.Ends out st added) {k : List Datum} :
    k ∈ added ↔ k ∈ b.newGroups := by
  rw [mem_newGroups]
  constructor
  · intro hk
    refine ⟨h.working.input_of_added hk, fun hrow => ?_⟩
    have hnodup : (b.groups added).Nodup := h.working.indexes.nodup
    rw [groups, List.nodup_append'] at hnodup
    exact hnodup.2.2 hrow hk
  · rintro ⟨⟨input, hinput, rfl⟩, hnew⟩
    obtain ⟨j, hj⟩ := List.mem_iff_getElem?.1 hinput
    obtain ⟨res, hres⟩ := h.resolved j (List.getElem?_eq_some_iff.1 hj).1
    obtain ⟨input', hinput', hright⟩ := h.working.right j res hres
    obtain rfl := Option.some.inj (hj.symm.trans hinput')
    exact (List.mem_append.1 (List.mem_of_getElem? hright.canonical)).resolve_left hnew

/-- Two runs over a batch add the same groups. -/
theorem Ends.perm (h : b.Ends out st added) (h' : b.Ends out' st' added') :
    (b.rowsWith added).Perm (b.rowsWith added') := by
  have hnodup : (b.groups added).Nodup := h.working.indexes.nodup
  have hnodup' : (b.groups added').Nodup := h'.working.indexes.nodup
  rw [groups, List.nodup_append'] at hnodup hnodup'
  have hperm : added.Perm added' := by
    rw [List.perm_ext_iff_of_nodup hnodup.2.1 hnodup'.2.1]
    exact fun k => h.mem_added_iff.trans h'.mem_added_iff.symm
  exact (hperm.map _).append_left _

theorem rowsWith_getElem? (added : List (List Datum)) {r : Nat} (hr : r < b.tdc.rowCount) :
    (b.rowsWith added)[r]? = b.rows[r]? := by
  rw [b.represents.holds.rowCount] at hr
  rw [rowsWith, List.getElem?_append_left hr]

theorem Ends.rowCount_le (h : b.Ends out st added) : b.tdc.rowCount ≤ st.tdc.rowCount := by
  rw [h.working.rows_length.1, b.represents.holds.rowCount]
  exact Nat.le_add_right _ _

/-- The first inputs of new groups, told by the row store. -/
theorem first_iff {j : Nat} {input : BatchProbeInput} : b.First j input ↔
    (∀ r < b.tdc.rowCount, groupAt layout b.tdc r ≠ b.group input) ∧
      ∀ i < j, ∀ input', b.inputs[i]? = some input' → b.group input' ≠ b.group input := by
  refine and_congr_left' ?_
  rw [b.represents.mem_iff]
  exact ⟨fun hnone r hr heq => hnone ⟨r, hr, heq⟩, fun hnone hsome =>
    hsome.elim fun r hr => hnone r hr.1 hr.2⟩

/-- **What a run over the inputs leaves.** -/
theorem Ends.outcome (h : b.Ends out st added) :
    Outcome layout b.chunk b.inputs b.tdc st.aht st.tdc out.2.2 := by
  have hrep := h.working.represents
  have hresults : out.2.2 = (List.range b.inputs.length).map st.results := by
    rw [h.out_eq]
  have hrow : ∀ r < b.tdc.rowCount, (groupAt layout st.tdc r, st.tdc.states layout r) =
      (groupAt layout b.tdc r, b.tdc.states layout r) := by
    intro r hr
    have hnew := hrep.getElem?_eq (Nat.lt_of_lt_of_le hr h.rowCount_le)
    rw [rowsWith_getElem? _ hr, b.represents.getElem?_eq hr] at hnew
    exact (Option.some.inj hnew).symm
  refine ⟨h.rowCount_le, fun r hr => ?_, fun r hge hlt => ?_, fun k => ?_,
    fun r hr r' hr' => hrep.index_eq hr hr', fun r hr => hrep.entered hr, ?_, fun j input hj => ?_⟩
  · exact Prod.mk.inj (hrow r hr)
  · -- an added row has the states it was made with
    have hrows := hrep.getElem?_eq hlt
    rw [b.represents.holds.rowCount] at hge
    rw [rowsWith, List.getElem?_append_right hge, List.getElem?_map,
      Option.map_eq_some_iff] at hrows
    obtain ⟨k, -, hk⟩ := hrows
    exact (Prod.mk.inj hk).2.symm
  · rw [← hrep.mem_iff, ← b.represents.mem_iff, rowsWith_fst, groups, List.mem_append,
      h.mem_added_iff, mem_newGroups]
    by_cases hk : k ∈ b.rows.map Prod.fst
    · exact ⟨fun _ => Or.inl hk, fun _ => Or.inl hk⟩
    · exact ⟨fun hor => hor.imp_right And.left, fun hor => hor.imp_right fun hin => ⟨hin, hk⟩⟩
  · rw [hresults, List.length_map, List.length_range]
  · have hlt := (List.getElem?_eq_some_iff.1 hj).1
    obtain ⟨res, hres⟩ := h.resolved j hlt
    obtain ⟨input', hinput', hright⟩ := h.working.right j res hres
    obtain rfl := Option.some.inj (hj.symm.trans hinput')
    have hcanonical := hright.canonical
    rw [← rowsWith_fst, hrep.group_iff] at hcanonical
    refine ⟨res, ?_, hright.rowIdx, hcanonical.1, hcanonical.2, ?_⟩
    · rw [hresults, List.getElem?_map, List.getElem?_range hlt, Option.map_some, hres]
    · rw [hright.inserted, first_iff]
      rfl

end Batch

/-- Two inputs get one row exactly when they have one group. -/
theorem Outcome.sameRow_iff {chunk : DataChunk} {inputs : List BatchProbeInput}
    {results : List (Option BatchProbeResult)}
    (h : Outcome layout chunk inputs t aht' t' results) {i j : Nat} {input input' : BatchProbeInput}
    (hi : inputs[i]? = some input) (hj : inputs[j]? = some input') {res res' : BatchProbeResult}
    (hres : results[i]? = some (some res)) (hres' : results[j]? = some (some res')) :
    res.canonicalRowIdx = res'.canonicalRowIdx ↔
      input.group layout chunk = input'.group layout chunk := by
  obtain ⟨x, hx, hanswers⟩ := h.answers i input hi
  obtain ⟨x', hx', hanswers'⟩ := h.answers j input' hj
  obtain rfl := Option.some.inj (Option.some.inj (hres.symm.trans hx))
  obtain rfl := Option.some.inj (Option.some.inj (hres'.symm.trans hx'))
  rw [← hanswers.canonical, ← hanswers'.canonical]
  exact ⟨fun heq => congrArg _ heq,
    fun heq => h.once _ hanswers.canonical_lt _ hanswers'.canonical_lt heq⟩

/-- The results under other numbers. -/
def renumber (number : Nat → Nat) (res : BatchProbeResult) : BatchProbeResult :=
  { res with canonicalRowIdx := number res.canonicalRowIdx }

/-- Two outcomes have the same results, up to the numbers of the rows. -/
theorem Outcome.results_eq {chunk : DataChunk} {inputs : List BatchProbeInput}
    {aht'' : AggregateHashTable} {t'' : TupleDataCollection}
    {results results' : List (Option BatchProbeResult)}
    (h : Outcome layout chunk inputs t aht' t' results)
    (h' : Outcome layout chunk inputs t aht'' t'' results') {number : Nat → Nat}
    (hnumber : Renumbering layout t.rowCount t' t'' number) :
    results' = results.map (Option.map (renumber number)) := by
  refine List.ext_getElem? fun j => ?_
  by_cases hj : j < inputs.length
  · obtain ⟨res, hres, hanswers⟩ := h.answers j _ (List.getElem?_eq_getElem hj)
    obtain ⟨res', hres', hanswers'⟩ := h'.answers j _ (List.getElem?_eq_getElem hj)
    rw [List.getElem?_map, hres, hres', Option.map_some, Option.map_some]
    have hlt := hnumber.lt _ hanswers.canonical_lt
    rw [← hnumber.rowCount] at hlt
    have hcanonical : res'.canonicalRowIdx = number res.canonicalRowIdx := by
      apply h'.once _ hanswers'.canonical_lt _ hlt
      rw [hnumber.group _ hanswers.canonical_lt, hanswers.canonical, hanswers'.canonical]
    have hinserted : res'.inserted = res.inserted :=
      Bool.eq_iff_iff.2 (hanswers'.inserted.trans hanswers.inserted.symm)
    have hrowIdx : res'.rowIdx = res.rowIdx := hanswers'.rowIdx.trans hanswers.rowIdx.symm
    obtain ⟨rowIdx, canonicalRowIdx, inserted⟩ := res'
    dsimp only at hcanonical hinserted hrowIdx
    rw [hcanonical, hinserted, hrowIdx]
    rfl
  · have hlength := h.length
    have hlength' := h'.length
    rw [List.getElem?_eq_none (by omega), List.getElem?_eq_none (by rw [List.length_map]; omega)]

/-! ## Candidate rows -/

/-- A probe compares the rows of the directory only. -/
theorem probeFrom_congr {hash : UInt64} {isMatch isMatch' : Nat → Bool}
    (h : ∀ slot salt i, aht.entries slot = some (salt, i) → isMatch i = isMatch' i) (tries : Nat) :
    ∀ slot, probeFrom aht hash isMatch slot tries = probeFrom aht hash isMatch' slot tries := by
  induction tries with
  | zero => exact fun _ => rfl
  | succ tries ih =>
    intro slot
    rw [probeFrom, probeFrom]
    cases hslot : aht.entries slot with
    | none => rfl
    | some entry =>
      obtain ⟨salt, i⟩ := entry
      dsimp only
      rw [h slot salt i hslot, ih]

/-- **`AggregateHashTableFindOrInsert`** for a candidate row, which has the values of a chunk row,
does what the turn of the chunk row does. -/
theorem findOrInsert_eq (h : Represents layout aht t rows) (hfirst : ColumnsFirst layout)
    {dst : TupleDataCollection} {candidate : Nat} (happ : t.appendRow = some (dst, candidate))
    {chunk : DataChunk} {input : BatchProbeInput}
    (hscatter : scatterGroup layout dst candidate (chunk, input.rowIdx) = .ok t') :
    ((∃ e, findOrInsert layout aht t' candidate input.hash = .error e) ∧
      ∃ e, findOrInsertRow layout chunk (aht, t, []) input = .error e) ∨
    ∃ aht' t'' res, findOrInsert layout aht t' candidate input.hash =
        .ok (aht', res.inserted, res.canonicalRowIdx) ∧
      findOrInsertRow layout chunk (aht, t, []) input = .ok (aht', t'', [some res]) := by
  have hcandidate := (appendRow_eq happ).2.2
  have hadded := h.holds.append_scatterGroup happ hscatter
  have hfilled := hadded.row candidate _ (by
    rw [hcandidate, h.holds.rowCount]
    exact List.getElem?_concat_length)
  have hprobe : aht.probe input.hash (matchGroupRow layout.toTupleDataLayout t' candidate t') =
      aht.probe input.hash fun r =>
        matchGroupAt layout.toTupleDataLayout t r (chunk, input.rowIdx) := by
    refine probeFrom_congr (fun slot salt i hslot => ?_) _ _
    obtain ⟨k, hk, -⟩ := h.indexes.sound slot salt i hslot
    obtain ⟨hi, -⟩ := h.group_iff.1 hk
    obtain ⟨row, hrow, hold⟩ := h.row hi
    have hnew := hadded.row i row (by
      rw [List.getElem?_append_left (List.getElem?_eq_some_iff.1 hrow).1]
      exact hrow)
    rw [Bool.eq_iff_iff, hfilled.matchRow_iff hnew hfirst, hold.match_iff]
    exact eq_comm
  unfold findOrInsert findOrInsertRow
  dsimp only
  rw [hprobe]
  cases aht.probe _ _ with
  | found existing => exact Or.inr ⟨aht, t, ⟨input.rowIdx, existing, false⟩, rfl, rfl⟩
  | empty slot =>
    refine Or.inr ⟨_, t', ⟨input.rowIdx, candidate, true⟩, rfl, ?_⟩
    dsimp only
    rw [happ]
    dsimp only
    rw [hscatter]
    rfl
  | full => exact Or.inl ⟨⟨_, rfl⟩, _, rfl⟩

/-! ## Batches and rows -/

/-- **A batch is its rows one at a time.** On a reachable table both fail, or both end; then
every group of the table and of the batch has one row after either, the rows of the table keep
their numbers, every input gets the row of its group, and the rows and results of the two differ
in the numbers of the new rows only. -/
theorem findOrInsertBatch_eq_inOrder (aarch64 : Bool) (hfirst : ColumnsFirst layout)
    (h : Reachable layout aht t) (chunk : DataChunk) (inputs : List BatchProbeInput)
    (hhash : ∀ input ∈ inputs, input.hash = hashGroup layout.descs chunk input.rowIdx) :
    ((∃ e, findOrInsertBatch aarch64 layout chunk aht t inputs = .error e) ∧
      ∃ e, findOrInsertInOrder layout chunk aht t inputs = .error e) ∨
    ∃ aht₁ t₁ results₁ aht₂ t₂ results₂ number,
      findOrInsertBatch aarch64 layout chunk aht t inputs = .ok (aht₁, t₁, results₁) ∧
      findOrInsertInOrder layout chunk aht t inputs = .ok (aht₂, t₂, results₂) ∧
      Outcome layout chunk inputs t aht₁ t₁ results₁ ∧
      Outcome layout chunk inputs t aht₂ t₂ results₂ ∧
      Renumbering layout t.rowCount t₁ t₂ number ∧
      results₂ = results₁.map (Option.map (renumber number)) ∧
      ∀ (i j : Nat) (input input' : BatchProbeInput) (res res' : BatchProbeResult),
        inputs[i]? = some input → inputs[j]? = some input' →
        results₁[i]? = some (some res) → results₁[j]? = some (some res') →
        (res.canonicalRowIdx = res'.canonicalRowIdx ↔
          input.group layout chunk = input'.group layout chunk) := by
  obtain ⟨rows, hrows⟩ := h.represents hfirst
  rcases Batch.batch_and_inOrder ⟨chunk, inputs, aht, t, rows, hrows, hhash⟩ aarch64 with
    hfail | ⟨out, st, added, out', st', added', hok, hends, hok', hends'⟩
  · exact Or.inl hfail
  · have hsame : ∀ r < t.rowCount,
        (Batch.rowsWith ⟨chunk, inputs, aht, t, rows, hrows, hhash⟩ added')[r]? =
          (Batch.rowsWith ⟨chunk, inputs, aht, t, rows, hrows, hhash⟩ added)[r]? := by
      intro r hr
      rw [Batch.rowsWith_getElem? _ hr, Batch.rowsWith_getElem? _ hr]
    obtain ⟨number, hnumber⟩ := hends.working.represents.renumbering hends'.working.represents
      (hends.perm hends') hends.rowCount_le hsame
    have houtcome := hends.outcome
    have houtcome' := hends'.outcome
    refine Or.inr ⟨st.aht, st.tdc, out.2.2, st'.aht, st'.tdc, out'.2.2, number, ?_, ?_, houtcome,
      houtcome', hnumber, houtcome.results_eq houtcome' hnumber, ?_⟩
    · rw [hends.out_eq] at hok ⊢
      exact hok
    · rw [hends'.out_eq] at hok' ⊢
      exact hok'
    · exact fun i j input input' res res' hi hj hres hres' =>
        houtcome.sameRow_iff hi hj hres hres'

theorem findOrInsertBatch_eq_inOrder_averageTwice : ∃ aht₁ t₁ results₁,
    averageBatch 2 = .ok (aht₁, t₁, results₁) ∧
    Outcome averageLayout (averageRow 7).1 (averageInputs 2) (averageStore 0) aht₁ t₁ results₁ := by
  have hok : (averageBatch 2).isOk = true := by decide +kernel
  obtain ⟨out, hout⟩ := eq_ok_of_isOk hok
  rcases findOrInsertBatch_eq_inOrder true averageLayout_columnsFirst averageTable_reachable
    (averageRow 7).1 (averageInputs 2) (averageInputs_hash 2) with hfail | hends
  · obtain ⟨e, he⟩ := hfail.1
    have hsame := hout.symm.trans he
    cases hsame
  · obtain ⟨aht₁, t₁, results₁, _, _, _, _, hbatch, -, houtcome, -⟩ := hends
    exact ⟨aht₁, t₁, results₁, hbatch, houtcome⟩

end Outcomes
end AggregateHashTable
end PgYaap
