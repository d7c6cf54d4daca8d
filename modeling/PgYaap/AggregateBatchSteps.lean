import PgYaap.AggregateBatchProbe

/-! # The steps of a batch

Between two steps of a batch every input has its result or is still probing: deferred to the next
round, waiting for its comparison, or waiting for its turn. An input that is still probing has
only passed other groups, and of two such inputs with one group the first comes first. -/
namespace PgYaap

open ColumnSlots AggregateStates HashJoinBuild ProbedTables TupleDataCollection

namespace AggregateHashTable

/-- The group of an input. -/
def BatchProbeInput.group (layout : AggregateLayout) (chunk : DataChunk)
    (input : BatchProbeInput) : List Datum :=
  chunk.groupColumns layout.descs input.rowIdx

section Batch

/-- The batch: the table and row store before it, the rows they stand for, and the inputs. -/
structure Batch (layout : AggregateLayout) where
  chunk : DataChunk
  inputs : List BatchProbeInput
  aht : AggregateHashTable
  tdc : TupleDataCollection
  rows : List (StoredRow layout)
  represents : Represents layout aht tdc rows
  hashed : ∀ input ∈ inputs, input.hash = hashGroup layout.descs chunk input.rowIdx

variable {layout : AggregateLayout} (b : Batch layout)

namespace Batch

def group (input : BatchProbeInput) : List Datum := input.group layout b.chunk

/-- The groups of the table, with those that the batch has added. -/
def groups (added : List (List Datum)) : List (List Datum) := b.rows.map Prod.fst ++ added

/-- The rows of the table, with those that the batch has added. -/
def rowsWith (added : List (List Datum)) : List (StoredRow layout) :=
  b.rows ++ added.map fun k => (k, initStates)

/-- An input that is the first of a group the table does not have. -/
def First (j : Nat) (input : BatchProbeInput) : Prop :=
  b.group input ∉ b.rows.map Prod.fst ∧
    ∀ i < j, ∀ input', b.inputs[i]? = some input' → b.group input' ≠ b.group input

/-- **A result is right**: the row has the group of its input, and was inserted by the first
input of a new group. -/
structure Right (added : List (List Datum)) (j : Nat) (input : BatchProbeInput)
    (res : BatchProbeResult) : Prop where
  rowIdx : res.rowIdx = input.rowIdx
  canonical : (b.groups added)[res.canonicalRowIdx]? = some (b.group input)
  inserted : res.inserted = true ↔ b.First j input

/-- What holds of the table, its row store and the results between two steps. -/
structure Working (st : BatchState) (added : List (List Datum)) : Prop where
  holds : HoldsRows layout st.tdc (b.rowsWith added)
  indexes : Indexes st.aht (b.groups added)
  capacity : st.aht.capacity = b.aht.capacity
  rowCapacity : st.tdc.rowCapacity = b.tdc.rowCapacity
  heapCapacity : st.tdc.heapCapacity = b.tdc.heapCapacity
  heapUsed : st.tdc.heapUsed = b.tdc.heapUsed + (added.map rowHeapBytes).sum
  inserter : ∀ k ∈ added, ∃ i input res, b.inputs[i]? = some input ∧ b.group input = k ∧
    st.results i = some res ∧ res.inserted = true
  right : ∀ j res, st.results j = some res → ∃ input, b.inputs[j]? = some input ∧
    b.Right added j input res

/-- An input that is still probing, after `r` tries. -/
structure AtSlot (st : BatchState) (added : List (List Datum)) (r : Nat) (p : Probe) : Prop where
  input : b.inputs[p.inputIdx]? = some p.input
  unresolved : st.results p.inputIdx = none
  tries : p.tries = r
  slot : p.slot = path st.aht.capacity (b.group p.input) r
  passed : PassedBy (path st.aht.capacity) st.aht.entries (b.groups added) (b.group p.input) r

/-- Of two inputs with one group the first comes first. -/
def Before (p q : Probe) : Prop := b.group p.input = b.group q.input → p.inputIdx < q.inputIdx

/-- The inputs still probing: deferred, to be compared, and waiting for their turn. -/
def probing (deferred : List Probe) (compared : List (Probe × Nat)) (rest : List Probe) :
    List Probe :=
  deferred ++ (compared.map Prod.fst ++ rest)

/-- **Between two steps** of round `r`. -/
structure Lanes (st : BatchState) (added : List (List Datum)) (r : Nat) (deferred : List Probe)
    (compared : List (Probe × Nat)) (rest : List Probe) : Prop where
  working : b.Working st added
  deferredAt : ∀ p ∈ deferred, b.AtSlot st added (r + 1) p
  comparedAt : ∀ c ∈ compared, b.AtSlot st added r c.1 ∧
    st.aht.entries c.1.slot = some (tag (b.group c.1.input), c.2)
  restAt : ∀ p ∈ rest, b.AtSlot st added r p
  ordered : (probing deferred compared rest).Pairwise b.Before
  complete : ∀ j < b.inputs.length, (∃ res, st.results j = some res) ∨
    ∃ p ∈ probing deferred compared rest, p.inputIdx = j

/-! ## Inputs that are still probing -/

variable {b} {st : BatchState} {added : List (List Datum)} {r : Nat} {p q : Probe}
  {deferred rest : List Probe} {compared : List (Probe × Nat)}

theorem groups_append (k : List Datum) : b.groups (added ++ [k]) = b.groups added ++ [k] :=
  (List.append_assoc _ _ _).symm

theorem rowsWith_append (k : List Datum) :
    b.rowsWith (added ++ [k]) = b.rowsWith added ++ [(k, initStates)] := by
  rw [rowsWith, List.map_append, ← List.append_assoc]
  rfl

theorem rowsWith_fst : (b.rowsWith added).map Prod.fst = b.groups added := by
  rw [rowsWith, List.map_append, List.map_map]
  exact congrArg _ (List.map_id _)

theorem AtSlot.hash (h : b.AtSlot st added r p) : p.input.hash = hashColumns (b.group p.input) := by
  rw [b.hashed _ (List.mem_of_getElem? h.input), hashGroup_eq]
  rfl

theorem AtSlot.tag (h : b.AtSlot st added r p) :
    hashSalt p.input.hash = AggregateHashTable.tag (b.group p.input) := by
  rw [h.hash]
  rfl

/-- **The next slot**, past another group. -/
theorem AtSlot.next (h : b.AtSlot st added r p) {salt : UInt16} {i : Nat}
    (hslot : st.aht.entries p.slot = some (salt, i))
    (hne : (b.groups added)[i]? ≠ some (b.group p.input)) :
    b.AtSlot st added (r + 1) (p.next st.aht) := by
  refine ⟨h.input, h.unresolved, congrArg Nat.succ h.tries, ?_, ?_⟩
  · change st.aht.nextSlot p.input.hash p.slot = _
    rw [h.hash, h.slot, nextSlot_eq]
    rfl
  · exact h.passed.succ (h.slot ▸ hslot) hne

/-- Inputs in the order of their groups are different inputs. -/
theorem AtSlot.ne_of_before {r' : Nat} (hp : b.AtSlot st added r p) (hq : b.AtSlot st added r' q)
    (hbefore : b.Before p q) : p.inputIdx ≠ q.inputIdx := by
  intro heq
  have hinput : p.input = q.input :=
    Option.some.inj (hp.input.symm.trans (heq ▸ hq.input))
  exact absurd (hbefore (congrArg b.group hinput)) (by omega)

/-- A result for another input. -/
theorem AtSlot.resolve (h : b.AtSlot st added r q) (hne : p.inputIdx ≠ q.inputIdx)
    {canonical : Nat} {inserted : Bool} :
    b.AtSlot (st.resolve p canonical inserted) added r q := by
  refine ⟨h.input, ?_, h.tries, h.slot, h.passed⟩
  change Function.update _ _ _ _ = _
  rw [Function.update_of_ne (Ne.symm hne)]
  exact h.unresolved

/-- A new group, entered at a slot that was empty. -/
theorem AtSlot.insert (h : b.AtSlot st added r q) (hindexes : Indexes st.aht (b.groups added))
    {k : List Datum} {n : Nat} (hempty : st.aht.entries (path st.aht.capacity k n) = none)
    {t' : TupleDataCollection} :
    b.AtSlot ⟨st.aht.setEntry (path st.aht.capacity k n) (AggregateHashTable.tag k)
      (b.groups added).length, t', st.results⟩ (added ++ [k]) r q := by
  refine ⟨h.input, h.unresolved, h.tries, h.slot, ?_⟩
  rw [groups_append]
  exact PassedBy.insert hindexes h.passed hempty

/-- A result stays right when groups are added. -/
theorem Right.append {j : Nat} {input : BatchProbeInput} {res : BatchProbeResult}
    (h : b.Right added j input res) (k : List Datum) : b.Right (added ++ [k]) j input res := by
  refine ⟨h.rowIdx, ?_, h.inserted⟩
  rw [groups_append, List.getElem?_append_left (List.getElem?_eq_some_iff.1 h.canonical).1]
  exact h.canonical

/-! ## Steps -/

theorem mem_probing : q ∈ probing deferred compared rest ↔
    q ∈ deferred ∨ (∃ c ∈ compared, c.1 = q) ∨ q ∈ rest := by
  rw [probing, List.mem_append, List.mem_append, List.mem_map]

/-- An input that is still probing has its input of the batch, and no result. -/
theorem Lanes.atSlot (h : b.Lanes st added r deferred compared rest)
    (hq : q ∈ probing deferred compared rest) : ∃ r', b.AtSlot st added r' q := by
  rcases mem_probing.1 hq with hmem | ⟨c, hmem, rfl⟩ | hmem
  · exact ⟨_, h.deferredAt q hmem⟩
  · exact ⟨_, (h.comparedAt c hmem).1⟩
  · exact ⟨_, h.restAt q hmem⟩

/-- The inputs that are still probing are different inputs. -/
theorem Lanes.ne_of_ordered (h : b.Lanes st added r deferred compared rest) {l l' : List Probe}
    (hsplit : probing deferred compared rest = l ++ p :: l') :
    ∀ q ∈ l ++ l', p.inputIdx ≠ q.inputIdx := by
  have hordered := h.ordered
  rw [hsplit, List.pairwise_append, List.pairwise_cons] at hordered
  have hmem : ∀ q ∈ l ++ p :: l', ∃ r', b.AtSlot st added r' q := by
    rw [← hsplit]
    exact fun q hq => h.atSlot hq
  obtain ⟨_, hp⟩ := hmem p (List.mem_append_right _ List.mem_cons_self)
  intro q hq
  rcases List.mem_append.1 hq with hq | hq
  · obtain ⟨_, hat⟩ := hmem q (List.mem_append_left _ hq)
    exact (hat.ne_of_before hp (hordered.2.2 q hq p List.mem_cons_self)).symm
  · obtain ⟨_, hat⟩ := hmem q (List.mem_append_right _ (List.mem_cons_of_mem _ hq))
    exact hp.ne_of_before hat (hordered.2.1.1 q hq)

/-- **An input at an empty slot is the first of its group**: the others of the group would be at
the same slot, or past it. -/
theorem Lanes.first (h : b.Lanes st added r deferred compared (p :: rest))
    (hempty : st.aht.entries p.slot = none) : b.First p.inputIdx p.input := by
  have hp := h.restAt p List.mem_cons_self
  have hnew : b.group p.input ∉ b.groups added :=
    h.working.indexes.not_mem hp.passed (hp.slot ▸ hempty)
  refine ⟨fun hold => hnew (List.mem_append_left _ hold), fun i hi input' hinput' hgroup => ?_⟩
  have hlt : i < b.inputs.length := (List.getElem?_eq_some_iff.1 hinput').1
  rcases h.complete i hlt with ⟨res, hres⟩ | ⟨q, hq, rfl⟩
  · obtain ⟨input, hinput, hright⟩ := h.working.right i res hres
    obtain rfl := Option.some.inj (hinput.symm.trans hinput')
    exact hnew (hgroup ▸ List.mem_of_getElem? hright.canonical)
  · obtain ⟨r', hat⟩ := h.atSlot hq
    obtain rfl := Option.some.inj (hat.input.symm.trans hinput')
    rcases mem_probing.1 hq with hmem | ⟨c, hmem, rfl⟩ | hmem
    · -- deferred: it has passed the slot
      have hpassed := (h.deferredAt q hmem).passed.ne_none r (Nat.lt_succ_self r)
      rw [hgroup, ← hp.slot] at hpassed
      exact hpassed hempty
    · -- to be compared: there is a row at the slot
      obtain ⟨hc, hentry⟩ := h.comparedAt c hmem
      rw [hc.slot, hgroup, ← hp.slot, hempty] at hentry
      cases hentry
    · rcases List.mem_cons.1 hmem with rfl | hmem
      · exact Nat.lt_irrefl _ hi
      · have hordered := h.ordered
        rw [probing, List.pairwise_append, List.pairwise_append, List.pairwise_cons] at hordered
        exact Nat.lt_asymm hi (hordered.2.1.2.1.1 q hmem hgroup.symm)

/-- A result for an input: it is recorded, and the results of the others stay. -/
theorem resolve_results {canonical : Nat} {inserted : Bool} {j : Nat} {res : BatchProbeResult}
    (hres : (st.resolve p canonical inserted).results j = some res) :
    (j = p.inputIdx ∧ res = ⟨p.input.rowIdx, canonical, inserted⟩) ∨
      (j ≠ p.inputIdx ∧ st.results j = some res) := by
  change Function.update st.results p.inputIdx _ j = some res at hres
  by_cases hj : j = p.inputIdx
  · rw [hj, Function.update_self] at hres
    exact Or.inl ⟨hj, (Option.some.inj hres).symm⟩
  · rw [Function.update_of_ne hj] at hres
    exact Or.inr ⟨hj, hres⟩

theorem resolve_self (canonical : Nat) (inserted : Bool) :
    (st.resolve p canonical inserted).results p.inputIdx =
      some ⟨p.input.rowIdx, canonical, inserted⟩ :=
  Function.update_self _ _ _

theorem resolve_of_ne {canonical : Nat} {inserted : Bool} {j : Nat} (hj : j ≠ p.inputIdx) :
    (st.resolve p canonical inserted).results j = st.results j :=
  Function.update_of_ne hj _ _

/-- The step of an input that gets its result: the others are probing still. -/
theorem Lanes.complete_resolve {l l' : List Probe} {canonical : Nat} {inserted : Bool}
    (hcomplete : ∀ j < b.inputs.length, (∃ res, st.results j = some res) ∨
      ∃ q ∈ l ++ p :: l', q.inputIdx = j) :
    ∀ j < b.inputs.length, (∃ res, (st.resolve p canonical inserted).results j = some res) ∨
      ∃ q ∈ l ++ l', q.inputIdx = j := by
  intro j hj
  by_cases hself : j = p.inputIdx
  · exact Or.inl ⟨_, hself ▸ resolve_self canonical inserted⟩
  · rw [resolve_of_ne hself]
    refine (hcomplete j hj).imp_right fun hq => ?_
    obtain ⟨q, hq, hidx⟩ := hq
    refine ⟨q, ?_, hidx⟩
    rcases List.mem_append.1 hq with hmem | hmem
    · exact List.mem_append_left _ hmem
    · rcases List.mem_cons.1 hmem with rfl | hmem
      · exact absurd hidx.symm hself
      · exact List.mem_append_right _ hmem

/-- The new row of an inserted group. -/
theorem Working.insert (h : b.Working st added) (hp : b.AtSlot st added r p)
    (hempty : st.aht.entries p.slot = none) (hfirst : b.First p.inputIdx p.input)
    {dst t' : TupleDataCollection} {candidate : Nat}
    (happ : st.tdc.appendRow = some (dst, candidate))
    (hok : scatterGroup layout dst candidate (b.chunk, p.input.rowIdx) = .ok t') :
    candidate = (b.groups added).length ∧
    b.Working (BatchState.resolve
      ⟨st.aht.setEntry p.slot (hashSalt p.input.hash) candidate, t', st.results⟩ p candidate true)
      (added ++ [b.group p.input]) := by
  obtain ⟨-, hdst, hcandidate⟩ := appendRow_eq happ
  have hlength : candidate = (b.groups added).length := by
    rw [hcandidate, h.holds.rowCount, ← rowsWith_fst, List.length_map]
  obtain ⟨rows, ht'⟩ := scatterGroup_eq hok
  rw [hdst] at ht'
  refine ⟨hlength, ?_, ?_, h.capacity, ?_, ?_, ?_, ?_, ?_⟩
  · rw [rowsWith_append]
    exact h.holds.append_scatterGroup happ hok
  · change Indexes (st.aht.setEntry p.slot (hashSalt p.input.hash) candidate) _
    rw [groups_append, hp.tag, hp.slot, hlength]
    exact h.indexes.setEntry hp.passed (hp.slot ▸ hempty)
  · change t'.rowCapacity = _
    rw [ht']
    exact h.rowCapacity
  · change t'.heapCapacity = _
    rw [ht']
    exact h.heapCapacity
  · change t'.heapUsed = _
    rw [ht', List.map_append, List.sum_append, List.map_singleton, List.sum_singleton,
      ← Nat.add_assoc, ← h.heapUsed]
    rfl
  · intro k hk
    rcases List.mem_append.1 hk with hold | hnew
    · obtain ⟨i, input, res, hinput, hgroup, hres, hinserted⟩ := h.inserter k hold
      refine ⟨i, input, res, hinput, hgroup, ?_, hinserted⟩
      rw [resolve_of_ne]
      · exact hres
      · intro heq
        rw [heq, hp.unresolved] at hres
        cases hres
    · rw [List.mem_singleton.1 hnew]
      exact ⟨p.inputIdx, p.input, _, hp.input, rfl, resolve_self candidate true, rfl⟩
  · intro j res hres
    rcases resolve_results hres with ⟨rfl, rfl⟩ | ⟨-, hres⟩
    · refine ⟨p.input, hp.input, rfl, ?_, ⟨fun _ => hfirst, fun _ => rfl⟩⟩
      rw [groups_append, hlength]
      exact List.getElem?_concat_length
    · obtain ⟨input, hinput, hright⟩ := h.right j res hres
      exact ⟨input, hinput, hright.append _⟩

/-- An input whose group is there is not the first of a new group: where the batch has added the
group, an earlier input has inserted it. -/
theorem Working.not_first (h : b.Working st added) (hp : b.AtSlot st added r p) {i : Nat}
    (hfound : (b.groups added)[i]? = some (b.group p.input)) : ¬ b.First p.inputIdx p.input := by
  rintro ⟨hnew, hbefore⟩
  rcases List.mem_append.1 (List.mem_of_getElem? hfound) with hold | hadded
  · exact hnew hold
  · obtain ⟨j, input, res, hinput, hgroup, hres, hinserted⟩ := h.inserter _ hadded
    obtain ⟨input', hinput', hright⟩ := h.right j res hres
    obtain rfl := Option.some.inj (hinput.symm.trans hinput')
    rcases Nat.lt_trichotomy j p.inputIdx with hlt | heq | hgt
    · exact hbefore j hlt input hinput hgroup
    · rw [heq, hp.unresolved] at hres
      cases hres
    · exact (hright.inserted.1 hinserted).2 _ hgt _ hp.input hgroup.symm

/-- The row of a group that is there. -/
theorem Working.found (h : b.Working st added) (hp : b.AtSlot st added r p) {i : Nat}
    (hfound : (b.groups added)[i]? = some (b.group p.input)) :
    b.Working (st.resolve p i false) added := by
  refine ⟨h.holds, h.indexes, h.capacity, h.rowCapacity, h.heapCapacity, h.heapUsed, ?_, ?_⟩
  · intro k hk
    obtain ⟨j, input, res, hinput, hgroup, hres, hinserted⟩ := h.inserter k hk
    refine ⟨j, input, res, hinput, hgroup, ?_, hinserted⟩
    rw [resolve_of_ne]
    · exact hres
    · intro heq
      rw [heq, hp.unresolved] at hres
      cases hres
  · intro j res hres
    rcases resolve_results hres with ⟨rfl, rfl⟩ | ⟨-, hres⟩
    · refine ⟨p.input, hp.input, rfl, hfound, fun htrue => ?_, fun hfirst => ?_⟩
      · exact absurd htrue Bool.false_ne_true
      · exact absurd hfirst (h.not_first hp hfound)
    · exact h.right j res hres

/-- **An input at an empty slot** inserts its group. -/
theorem Lanes.insert (h : b.Lanes st added r deferred compared (p :: rest))
    (hempty : st.aht.entries p.slot = none) {dst t' : TupleDataCollection} {candidate : Nat}
    (happ : st.tdc.appendRow = some (dst, candidate))
    (hok : scatterGroup layout dst candidate (b.chunk, p.input.rowIdx) = .ok t') :
    b.Lanes (BatchState.resolve
      ⟨st.aht.setEntry p.slot (hashSalt p.input.hash) candidate, t', st.results⟩ p candidate true)
      (added ++ [b.group p.input]) r deferred compared rest := by
  have hp := h.restAt p List.mem_cons_self
  obtain ⟨hcandidate, hworking⟩ := h.working.insert hp hempty (h.first hempty) happ hok
  have hsplit : probing deferred compared (p :: rest) =
      (deferred ++ compared.map Prod.fst) ++ p :: rest := (List.append_assoc _ _ _).symm
  have hne := h.ne_of_ordered hsplit
  rw [List.append_assoc] at hne
  have hother : ∀ {r' : Nat} {q : Probe}, b.AtSlot st added r' q →
      q ∈ probing deferred compared rest → b.AtSlot (BatchState.resolve
        ⟨st.aht.setEntry p.slot (hashSalt p.input.hash) candidate, t', st.results⟩ p candidate true)
        (added ++ [b.group p.input]) r' q := by
    intro r' q hat hmem
    have hinsert := @AtSlot.insert layout b st added r' q hat h.working.indexes _ _
      (hp.slot ▸ hempty) t'
    rw [← hp.slot, ← hp.tag, ← hcandidate] at hinsert
    exact hinsert.resolve (hne q hmem)
  refine ⟨hworking, fun q hq => ?_, fun c hc => ⟨?_, ?_⟩, fun q hq => ?_, ?_, ?_⟩
  · exact hother (h.deferredAt q hq) (mem_probing.2 (Or.inl hq))
  · exact hother (h.comparedAt c hc).1 (mem_probing.2 (Or.inr (Or.inl ⟨c, hc, rfl⟩)))
  · have hentry := (h.comparedAt c hc).2
    change Function.update _ _ _ _ = _
    rw [Function.update_of_ne, hentry]
    intro heq
    rw [heq, hempty] at hentry
    cases hentry
  · exact hother (h.restAt q (List.mem_cons_of_mem _ hq)) (mem_probing.2 (Or.inr (Or.inr hq)))
  · have hordered := h.ordered
    rw [hsplit] at hordered
    have hsub := hordered.sublist (List.Sublist.append_left (List.sublist_cons_self p rest) _)
    rwa [List.append_assoc] at hsub
  · have hcomplete := h.complete
    rw [hsplit] at hcomplete
    have hall := @Lanes.complete_resolve layout b ⟨st.aht.setEntry p.slot (hashSalt p.input.hash)
      candidate, t', st.results⟩ p _ _ candidate true hcomplete
    rwa [List.append_assoc] at hall

/-- **An input at a slot with another salt** goes on to its next slot. It goes before the inputs
that are compared in its vector: their slots have their salts. -/
theorem Lanes.defer (h : b.Lanes st added r deferred compared (p :: rest)) {salt : UInt16} {i : Nat}
    (hslot : st.aht.entries p.slot = some (salt, i)) (hsalt : salt ≠ hashSalt p.input.hash) :
    b.Lanes st added r (deferred ++ [p.next st.aht]) compared rest := by
  have hp := h.restAt p List.mem_cons_self
  rw [hp.tag] at hsalt
  have hne : (b.groups added)[i]? ≠ some (b.group p.input) :=
    h.working.indexes.ne_of_tag_ne hslot hsalt
  have hordered := h.ordered
  rw [probing, List.pairwise_append, List.pairwise_append, List.pairwise_cons] at hordered
  obtain ⟨hdeferred, ⟨hcompared, ⟨hfirst, hrest⟩, hcross⟩, hlater⟩ := hordered
  refine ⟨h.working, fun q hq => ?_, h.comparedAt, fun q hq => ?_, ?_, fun j hj => ?_⟩
  · rcases List.mem_append.1 hq with hold | hnew
    · exact h.deferredAt q hold
    · rw [List.mem_singleton.1 hnew]
      exact hp.next hslot hne
  · exact h.restAt q (List.mem_cons_of_mem _ hq)
  · have hbetween : ∀ q ∈ compared.map Prod.fst, b.Before (p.next st.aht) q := by
      intro q hq hgroup
      obtain ⟨c, hc, rfl⟩ := List.mem_map.1 hq
      obtain ⟨hat, hentry⟩ := h.comparedAt c hc
      have hgroup' : b.group p.input = b.group c.1.input := hgroup
      rw [hat.slot, ← hgroup', ← hp.slot, hslot, Option.some.injEq, Prod.mk.injEq] at hentry
      exact absurd hentry.1 hsalt
    rw [probing, List.pairwise_append, List.pairwise_append, List.pairwise_append]
    refine ⟨⟨hdeferred, List.pairwise_singleton _ _, ?_⟩, ⟨hcompared, hrest, ?_⟩, ?_⟩
    · intro q hq q' hq'
      rw [List.mem_singleton.1 hq']
      exact hlater q hq p (List.mem_append_right _ List.mem_cons_self)
    · exact fun q hq q' hq' => hcross q hq q' (List.mem_cons_of_mem _ hq')
    · intro q hq q' hq'
      rcases List.mem_append.1 hq with hold | hnew
      · refine hlater q hold q' ?_
        rcases List.mem_append.1 hq' with hmem | hmem
        · exact List.mem_append_left _ hmem
        · exact List.mem_append_right _ (List.mem_cons_of_mem _ hmem)
      · rw [List.mem_singleton.1 hnew]
        rcases List.mem_append.1 hq' with hmem | hmem
        · exact hbetween q' hmem
        · exact hfirst q' hmem
  · refine (h.complete j hj).imp_right fun hq => ?_
    obtain ⟨q, hq, hidx⟩ := hq
    rcases mem_probing.1 hq with hmem | hmem | hmem
    · exact ⟨q, mem_probing.2 (Or.inl (List.mem_append_left _ hmem)), hidx⟩
    · exact ⟨q, mem_probing.2 (Or.inr (Or.inl hmem)), hidx⟩
    · rcases List.mem_cons.1 hmem with rfl | hmem
      · refine ⟨q.next st.aht, mem_probing.2 (Or.inl ?_), hidx⟩
        exact List.mem_append_right _ (List.mem_singleton_self _)
      · exact ⟨q, mem_probing.2 (Or.inr (Or.inr hmem)), hidx⟩

theorem probing_compare {i : Nat} :
    probing deferred (compared ++ [(p, i)]) rest = probing deferred compared (p :: rest) := by
  rw [probing, probing, List.map_append, List.append_assoc]
  rfl

/-- **An input at a slot with its salt** waits for the comparison. -/
theorem Lanes.compare (h : b.Lanes st added r deferred compared (p :: rest)) {i : Nat}
    (hslot : st.aht.entries p.slot = some (hashSalt p.input.hash, i)) :
    b.Lanes st added r deferred (compared ++ [(p, i)]) rest := by
  have hp := h.restAt p List.mem_cons_self
  refine ⟨h.working, h.deferredAt, fun c hc => ?_, fun q hq => ?_, ?_, ?_⟩
  · rcases List.mem_append.1 hc with hold | hnew
    · exact h.comparedAt c hold
    · rw [List.mem_singleton.1 hnew]
      exact ⟨hp, hp.tag ▸ hslot⟩
  · exact h.restAt q (List.mem_cons_of_mem _ hq)
  · rw [probing_compare]
    exact h.ordered
  · rw [probing_compare]
    exact h.complete

/-- **A comparison that fails**: the input goes on to its next slot. -/
theorem Lanes.mismatch {c : Probe × Nat}
    (h : b.Lanes st added r deferred (c :: compared) rest)
    (hne : (b.groups added)[c.2]? ≠ some (b.group c.1.input)) :
    b.Lanes st added r (deferred ++ [c.1.next st.aht]) compared rest := by
  obtain ⟨hat, hentry⟩ := h.comparedAt c List.mem_cons_self
  have hordered := h.ordered
  have hsplit : probing deferred (c :: compared) rest =
      deferred ++ c.1 :: (compared.map Prod.fst ++ rest) := rfl
  have hsplit' : probing (deferred ++ [c.1.next st.aht]) compared rest =
      deferred ++ c.1.next st.aht :: (compared.map Prod.fst ++ rest) := by
    rw [probing, List.append_assoc]
    rfl
  refine ⟨h.working, fun q hq => ?_, fun c' hc' => h.comparedAt c' (List.mem_cons_of_mem _ hc'),
    h.restAt, ?_, fun j hj => ?_⟩
  · rcases List.mem_append.1 hq with hold | hnew
    · exact h.deferredAt q hold
    · rw [List.mem_singleton.1 hnew]
      exact hat.next hentry hne
  · rw [hsplit, List.pairwise_append, List.pairwise_cons] at hordered
    rw [hsplit', List.pairwise_append, List.pairwise_cons]
    refine ⟨hordered.1, hordered.2.1, fun q hq q' hq' => ?_⟩
    rcases List.mem_cons.1 hq' with rfl | hmem
    · exact hordered.2.2 q hq c.1 List.mem_cons_self
    · exact hordered.2.2 q hq q' (List.mem_cons_of_mem _ hmem)
  · rw [hsplit']
    refine (h.complete j hj).imp_right fun hq => ?_
    obtain ⟨q, hq, hidx⟩ := hq
    rw [hsplit] at hq
    rcases List.mem_append.1 hq with hmem | hmem
    · exact ⟨q, List.mem_append_left _ hmem, hidx⟩
    · rcases List.mem_cons.1 hmem with rfl | hmem
      · exact ⟨_, List.mem_append_right _ List.mem_cons_self, hidx⟩
      · exact ⟨q, List.mem_append_right _ (List.mem_cons_of_mem _ hmem), hidx⟩

/-- **A comparison that succeeds**: the input gets the row at its slot. -/
theorem Lanes.found {c : Probe × Nat}
    (h : b.Lanes st added r deferred (c :: compared) rest)
    (hfound : (b.groups added)[c.2]? = some (b.group c.1.input)) :
    b.Lanes (st.resolve c.1 c.2 false) added r deferred compared rest := by
  obtain ⟨hat, hentry⟩ := h.comparedAt c List.mem_cons_self
  have hsplit : probing deferred (c :: compared) rest =
      deferred ++ c.1 :: (compared.map Prod.fst ++ rest) := rfl
  have hne := h.ne_of_ordered hsplit
  have hother : ∀ {r' : Nat} {q : Probe}, b.AtSlot st added r' q →
      q ∈ probing deferred compared rest → b.AtSlot (st.resolve c.1 c.2 false) added r' q :=
    fun hq hmem => hq.resolve (hne _ hmem)
  refine ⟨?_, fun q hq => ?_, fun c' hc' => ?_, fun q hq => ?_, ?_, ?_⟩
  · exact h.working.found hat hfound
  · exact hother (h.deferredAt q hq) (mem_probing.2 (Or.inl hq))
  · obtain ⟨hat', hentry'⟩ := h.comparedAt c' (List.mem_cons_of_mem _ hc')
    exact ⟨hother hat' (mem_probing.2 (Or.inr (Or.inl ⟨c', hc', rfl⟩))), hentry'⟩
  · exact hother (h.restAt q hq) (mem_probing.2 (Or.inr (Or.inr hq)))
  · have hordered := h.ordered
    rw [hsplit] at hordered
    exact hordered.sublist (List.Sublist.append_left (List.sublist_cons_self _ _) _)
  · have hcomplete := h.complete
    rw [hsplit] at hcomplete
    exact Lanes.complete_resolve hcomplete

end Batch
end Batch
end AggregateHashTable
end PgYaap
