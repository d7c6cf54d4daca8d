import PgYaap.TupleData

/-! # Flattening dictionaries

A dictionary slot names another slot, and its rows are indices into the values that stand there.
`flatten` goes through the slots in their order: a dictionary slot is read through its dictionary,
the values are written into its own array, and the dictionary is dropped. A slot whose source is a
dictionary slot, too, is read from the array of that one, whatever its dictionary says.

This comes out right for a source that is flat or has a higher number. An earlier source has been
overwritten by the time it is read; it has to hold what it is a dictionary for. -/
namespace PgYaap
namespace DictionaryChunks

/-! ## Slots of one kind -/

/-- One turn of the loop, for the slots of one kind. -/
def flattenSlot {α : Type} (count : Nat) (c : ChunkColumns α) (slot : Nat) : ChunkColumns α :=
  if (c.dict slot).active then
    { c with
      columns := Function.update c.columns slot fun row =>
        if row < count then c.get slot row else c.columns slot row
      dict := Function.update c.dict slot ⟨false, 0⟩ }
  else c

/-- The loop over the slots of one kind. -/
def flattenSlots {α : Type} (count slots : Nat) (c : ChunkColumns α) : ChunkColumns α :=
  (List.range slots).foldl (flattenSlot count) c

/-- A chunk has sixteen slots of a kind. -/
def nSlots : Nat := 16

/-- The four tests of a turn. -/
def flattenChunkSlot (chunk : DataChunk) (slot : Nat) : DataChunk :=
  { chunk with
    int32 := flattenSlot chunk.count chunk.int32 slot
    int64 := flattenSlot chunk.count chunk.int64 slot
    double := flattenSlot chunk.count chunk.double slot
    string := flattenSlot chunk.count chunk.string slot }

/-- `DataChunk::flatten`. -/
def flatten (chunk : DataChunk) : DataChunk := (List.range nSlots).foldl flattenChunkSlot chunk

/-- `has_any_dictionary`. -/
def hasAnyDictionary (chunk : DataChunk) : Bool :=
  (List.range nSlots).any fun i => (chunk.double.dict i).active || (chunk.int64.dict i).active ||
    (chunk.int32.dict i).active || (chunk.string.dict i).active

/-- **A flattened chunk is as it was**: no getter and no null flag tells the difference, and there is
no dictionary. -/
structure Flattens (chunk flat : DataChunk) : Prop where
  get : ∀ kind, ∀ slot < nSlots, ∀ row < chunk.count, flat.get kind slot row = chunk.get kind slot row
  nulls : ∀ slot < nSlots, ∀ row < chunk.count, flat.nulls slot row = chunk.nulls slot row
  count : flat.count = chunk.count
  noDictionary : hasAnyDictionary flat = false

/-- **A dictionary that survives**: where the source of a slot is a dictionary slot before it, what
stands in the row that is looked up is what the source is a dictionary for. -/
def Survives {α : Type} (count slots : Nat) (c : ChunkColumns α) : Prop :=
  ∀ slot < slots, (c.dict slot).active = true → ∀ row < count,
    (c.dict slot).sourceSlot < slot → (c.dict (c.dict slot).sourceSlot).active = true →
      c.dictIndices slot row < count →
        c.get (c.dict slot).sourceSlot (c.dictIndices slot row) =
          c.columns (c.dict slot).sourceSlot (c.dictIndices slot row)

section Slots

variable {α : Type} {count slots slot row : Nat} {c : ChunkColumns α}

theorem flattenSlots_succ (count n : Nat) (c : ChunkColumns α) :
    flattenSlots count (n + 1) c = flattenSlot count (flattenSlots count n c) n := by
  unfold flattenSlots
  rw [List.range_succ, List.foldl_append]
  rfl

theorem flattenSlot_dictIndices (count : Nat) (c : ChunkColumns α) (slot : Nat) :
    (flattenSlot count c slot).dictIndices = c.dictIndices := by
  unfold flattenSlot
  split <;> rfl

theorem flattenSlots_dictIndices (count n : Nat) (c : ChunkColumns α) :
    (flattenSlots count n c).dictIndices = c.dictIndices := by
  induction n with
  | zero => rfl
  | succ n ih => rw [flattenSlots_succ, flattenSlot_dictIndices, ih]

/-- A turn is about its own slot. -/
theorem flattenSlot_of_ne {k : Nat} (hne : k ≠ slot) :
    (flattenSlot count c slot).columns k = c.columns k ∧
      (flattenSlot count c slot).dict k = c.dict k := by
  unfold flattenSlot
  split
  · exact ⟨Function.update_of_ne hne _ _, Function.update_of_ne hne _ _⟩
  · exact ⟨rfl, rfl⟩

/-- The slots from `n` on are not reached by the first `n` turns. -/
theorem flattenSlots_of_le {n k : Nat} (hle : n ≤ k) :
    (flattenSlots count n c).columns k = c.columns k ∧
      (flattenSlots count n c).dict k = c.dict k := by
  induction n with
  | zero => exact ⟨rfl, rfl⟩
  | succ n ih =>
    have hne := @flattenSlot_of_ne _ count n (flattenSlots count n c) k (by omega)
    rw [flattenSlots_succ, hne.1, hne.2]
    exact ih (by omega)

/-- A slot is finished with its turn. -/
theorem flattenSlots_of_lt {n m k : Nat} (hlt : k < n) (hle : n ≤ m) :
    (flattenSlots count m c).columns k = (flattenSlots count n c).columns k ∧
      (flattenSlots count m c).dict k = (flattenSlots count n c).dict k := by
  induction m with
  | zero => omega
  | succ m ih =>
    rcases Nat.lt_or_eq_of_le hle with hlt' | rfl
    · have hne := @flattenSlot_of_ne _ count m (flattenSlots count m c) k (by omega)
      rw [flattenSlots_succ, hne.1, hne.2]
      exact ih (by omega)
    · exact ⟨rfl, rfl⟩

/-- Every dictionary is dropped. -/
theorem flattenSlots_active (hslot : slot < slots) :
    ((flattenSlots count slots c).dict slot).active = false := by
  rw [(flattenSlots_of_lt (Nat.lt_succ_self slot) hslot).2, flattenSlots_succ]
  unfold flattenSlot
  split
  · dsimp only
    rw [Function.update_self]
  · rename_i hflat
    exact Bool.eq_false_iff.2 hflat

theorem get_flattenSlots (hslot : slot < slots) :
    (flattenSlots count slots c).get slot row = (flattenSlots count slots c).columns slot row := by
  unfold ChunkColumns.get
  rw [if_neg (by rw [flattenSlots_active hslot]; exact Bool.false_ne_true)]

/-- A flat slot keeps its values. -/
theorem columns_of_flat (hslot : slot < slots) (hflat : (c.dict slot).active = false) :
    (flattenSlots count slots c).columns slot = c.columns slot := by
  have hbefore := @flattenSlots_of_le _ count c slot slot (Nat.le_refl slot)
  rw [(flattenSlots_of_lt (Nat.lt_succ_self slot) hslot).1, flattenSlots_succ, flattenSlot,
    if_neg (by rw [hbefore.2, hflat]; exact Bool.false_ne_true), hbefore.1]

/-- **A dictionary slot is read** from what has become of its source by then. -/
theorem columns_of_active (hslot : slot < slots) (hactive : (c.dict slot).active = true) :
    (flattenSlots count slots c).columns slot row =
      if row < count then
        if (c.dict slot).sourceSlot < slot then
          (flattenSlots count slots c).columns (c.dict slot).sourceSlot (c.dictIndices slot row)
        else c.columns (c.dict slot).sourceSlot (c.dictIndices slot row)
      else c.columns slot row := by
  have hbefore := @flattenSlots_of_le _ count c slot slot (Nat.le_refl slot)
  rw [(flattenSlots_of_lt (Nat.lt_succ_self slot) hslot).1, flattenSlots_succ, flattenSlot,
    if_pos (by rw [hbefore.2]; exact hactive)]
  dsimp only
  rw [Function.update_self, hbefore.1]
  by_cases hrow : row < count
  · rw [if_pos hrow, if_pos hrow, ChunkColumns.get, hbefore.2, if_pos hactive,
      flattenSlots_dictIndices]
    by_cases hlt : (c.dict slot).sourceSlot < slot
    · rw [if_pos hlt, ← (flattenSlots_of_lt hlt (Nat.le_of_lt hslot)).1]
    · rw [if_neg hlt, (flattenSlots_of_le (Nat.le_of_not_lt hlt)).1]
  · rw [if_neg hrow, if_neg hrow]

/-- Rows behind the last one stay. -/
theorem columns_of_le (hslot : slot < slots) (hrow : count ≤ row) :
    (flattenSlots count slots c).columns slot row = c.columns slot row := by
  cases hdict : (c.dict slot).active with
  | false => rw [columns_of_flat hslot hdict]
  | true => rw [columns_of_active hslot hdict, if_neg (Nat.not_lt.2 hrow)]

theorem get_of_active (hactive : (c.dict slot).active = true) :
    c.get slot row = c.columns (c.dict slot).sourceSlot (c.dictIndices slot row) := if_pos hactive

theorem get_of_flat (hflat : (c.dict slot).active = false) : c.get slot row = c.columns slot row :=
  if_neg (by rw [hflat]; exact Bool.false_ne_true)

/-- **The slots of a kind keep their values** exactly where their dictionaries survive. -/
theorem flattenSlots_get_iff :
    (∀ slot < slots, ∀ row < count,
      (flattenSlots count slots c).get slot row = c.get slot row) ↔ Survives count slots c := by
  constructor
  · intro hget slot hslot hactive row hrow hlt _ hindex
    -- the slot was read from its source as flattened, which is as it was
    have hsource := hget _ (Nat.lt_trans hlt hslot) _ hindex
    have hown := hget slot hslot row hrow
    rw [get_flattenSlots (Nat.lt_trans hlt hslot)] at hsource
    rw [get_flattenSlots hslot, columns_of_active hslot hactive, if_pos hrow, if_pos hlt,
      get_of_active hactive, hsource] at hown
    exact hown
  · intro hsurvives slot
    induction slot using Nat.strong_induction_on with
    | _ slot ih =>
      intro hslot row hrow
      rw [get_flattenSlots hslot]
      cases hdict : (c.dict slot).active with
      | false => rw [columns_of_flat hslot hdict, get_of_flat hdict]
      | true =>
        rw [columns_of_active hslot hdict, if_pos hrow, get_of_active hdict]
        by_cases hlt : (c.dict slot).sourceSlot < slot
        · have hsourceSlot := Nat.lt_trans hlt hslot
          rw [if_pos hlt]
          cases hsource : (c.dict (c.dict slot).sourceSlot).active with
          | false => rw [columns_of_flat hsourceSlot hsource]
          | true =>
            rcases Nat.lt_or_ge (c.dictIndices slot row) count with hindex | hindex
            · rw [← get_flattenSlots hsourceSlot, ih _ hlt hsourceSlot _ hindex]
              exact hsurvives slot hslot hdict row hrow hlt hsource hindex
            · rw [columns_of_le hsourceSlot hindex]
        · rw [if_neg hlt]

end Slots

/-! ## Chunks -/

section Chunks

variable {chunk : DataChunk}

/-- The kinds are flattened independently. -/
theorem flatten_eq (chunk : DataChunk) :
    flatten chunk = { chunk with
      int32 := flattenSlots chunk.count nSlots chunk.int32
      int64 := flattenSlots chunk.count nSlots chunk.int64
      double := flattenSlots chunk.count nSlots chunk.double
      string := flattenSlots chunk.count nSlots chunk.string } := by
  unfold flatten
  generalize nSlots = n
  induction n with
  | zero => rfl
  | succ n ih =>
    rw [List.range_succ, List.foldl_append, ih, flattenSlots_succ, flattenSlots_succ,
      flattenSlots_succ, flattenSlots_succ]
    rfl

/-- No dictionary is left. -/
theorem hasAnyDictionary_flatten (chunk : DataChunk) : hasAnyDictionary (flatten chunk) = false := by
  unfold hasAnyDictionary
  rw [List.any_eq_false]
  intro slot hslot
  have hlt := List.mem_range.1 hslot
  rw [flatten_eq]
  dsimp only
  rw [flattenSlots_active hlt, flattenSlots_active hlt, flattenSlots_active hlt,
    flattenSlots_active hlt]
  exact Bool.false_ne_true

/-- The dictionaries of all kinds survive. -/
structure ChunkSurvives (chunk : DataChunk) : Prop where
  int32 : Survives chunk.count nSlots chunk.int32
  int64 : Survives chunk.count nSlots chunk.int64
  double : Survives chunk.count nSlots chunk.double
  string : Survives chunk.count nSlots chunk.string

/-- **Flattening, exactly**: what the getters return is kept where the dictionaries survive; the
null flags are kept and the dictionaries are dropped in any case. -/
theorem flatten_exact (chunk : DataChunk) : Flattens chunk (flatten chunk) ↔ ChunkSurvives chunk := by
  have hrest : (∀ slot < nSlots, ∀ row < chunk.count,
      (flatten chunk).nulls slot row = chunk.nulls slot row) ∧
        (flatten chunk).count = chunk.count := by
    rw [flatten_eq]
    exact ⟨fun _ _ _ _ => rfl, rfl⟩
  constructor
  · rintro ⟨hget, -, -, -⟩
    rw [flatten_eq] at hget
    refine ⟨?_, ?_, ?_, ?_⟩
    · exact flattenSlots_get_iff.1 fun slot hslot row hrow =>
        Datum.int32.inj (hget .int32 slot hslot row hrow)
    · exact flattenSlots_get_iff.1 fun slot hslot row hrow =>
        Datum.int64.inj (hget .int64 slot hslot row hrow)
    · exact flattenSlots_get_iff.1 fun slot hslot row hrow =>
        Datum.double.inj (hget .double slot hslot row hrow)
    · exact flattenSlots_get_iff.1 fun slot hslot row hrow =>
        Datum.stringRef.inj (hget .stringRef slot hslot row hrow)
  · intro h
    refine ⟨fun kind slot hslot row hrow => ?_, hrest.1, hrest.2, hasAnyDictionary_flatten chunk⟩
    rw [flatten_eq]
    cases kind with
    | int32 => exact congrArg Datum.int32 (flattenSlots_get_iff.2 h.int32 slot hslot row hrow)
    | int64 => exact congrArg Datum.int64 (flattenSlots_get_iff.2 h.int64 slot hslot row hrow)
    | double => exact congrArg Datum.double (flattenSlots_get_iff.2 h.double slot hslot row hrow)
    | stringRef =>
      exact congrArg Datum.stringRef (flattenSlots_get_iff.2 h.string slot hslot row hrow)

end Chunks

/-! ## A chain of two dictionaries -/

/-- No columns of a kind. -/
def noColumns {α : Type} (zero : α) : ChunkColumns α :=
  ⟨fun _ _ => zero, fun _ _ => 0, fun _ => ⟨false, 0⟩⟩

/-- One row: slot 0 is a dictionary into slot 2, and slot 1 one into slot 0. -/
def chained : DataChunk where
  count := 1
  int32 := ⟨fun slot _ => if slot = 2 then 9 else 7, fun _ _ => 0, fun slot =>
    if slot = 0 then ⟨true, 2⟩ else if slot = 1 then ⟨true, 0⟩ else ⟨false, 0⟩⟩
  int64 := noColumns 0
  double := noColumns 0
  string := noColumns []
  nulls := fun _ _ => 0

/-- **A source that has been overwritten.** Slot 1 stands for the seven in the array of slot 0; when
it is read, slot 0 has been flattened to the nine of slot 2. -/
theorem not_flattens : ¬ ∀ chunk : DataChunk, Flattens chunk (flatten chunk) := by
  intro hall
  have hget := (hall chained).get .int32 1 (by decide) 0 (by decide)
  revert hget
  decide

end DictionaryChunks
end PgYaap
