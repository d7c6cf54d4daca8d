import PgYaap.FilterScratchValues

/-! # The filter deform is right on the inputs that fit

Every input has a slot of its own, so what is in a slot in the end is what was written for its
input. The list of inputs is any the translator publishes. -/
namespace PgYaap
namespace FilterScratch

open FilterProgram SimpleFilterSteps HeapTuples
open StoredNumeric NumericColumns

/-! ## One input -/

section Input

variable {detoast : List UInt8 → List UInt8} {rel : List RelationColumn} {t : HeapTuple}
  {c : RelationColumn} {input : FilterInputDesc} {old : Int64} {chunk : FilterChunk} {slot : Nat}

/-- The kind and the array of an input, and what is written into its slot. -/
structure CellOf (detoast : List UInt8 → List UInt8) (rel : List RelationColumn) (t : HeapTuple)
    (c : RelationColumn) (input : FilterInputDesc) (kind : HeapColumns.DeformDecodeKind)
    (array : ScratchArray) (cell : Option (Except String Datum)) : Prop where
  inputOf : InputOf c input
  column : rel[input.attno - 1]? = some c
  kind_eq : filterDeformKind input.sourceDecodeKind = some kind
  array_eq : bindingArray input.decodeKind = some array
  cell_eq : cell = if t.isnull (input.attno - 1) then none
    else some (fetch (decodeNumeric detoast) kind c.atttypmod
      (t.bytesAt (t.startOf (descriptor rel) c.toCompactAttribute (input.attno - 1))
        (t.width kind (t.startOf (descriptor rel) c.toCompactAttribute (input.attno - 1)))))

theorem descriptor_getElem? {k : Nat} (h : rel[k]? = some c) :
    (descriptor rel)[k]? = some c.toCompactAttribute := by
  rw [descriptor, List.getElem?_map, h]
  rfl

/-- The attributes the tuple does not have would start behind it. -/
theorem len_le_startOf (hwf : WellFormed t (descriptor rel)) {k : Nat} (hk : t.natts ≤ k)
    (hc : rel[k]? = some c) :
    t.len ≤ t.hoff + t.startOf (descriptor rel) c.toCompactAttribute k := by
  have hwalked : ∀ j, j ≤ k → Walked t (descriptor rel) j
      (t.offsetBehind ((descriptor rel).take j) 0 0) := by
    intro j hj
    induction j with
    | zero => exact Walked.start hwf
    | succ j ih =>
      have hlt : j < (descriptor rel).length := by
        have := (List.getElem?_eq_some_iff.1 (descriptor_getElem? hc)).1
        omega
      have hatt := List.getElem?_eq_getElem hlt
      rw [offsetBehind_succ hatt]
      exact (ih (by omega)).step hwf hatt
  have hbehind := (hwalked k le_rfl).behind hk
  have halign : t.offsetBehind ((descriptor rel).take k) 0 0 ≤
      t.startOf (descriptor rel) c.toCompactAttribute k :=
    le_alignAtt (hwf.alignby_pos _ (List.mem_of_getElem? (descriptor_getElem? hc)))
  omega

/-- A content in its array stands for a value as the slot does. -/
theorem holds_iff {array : ScratchArray} {decoded : Except String Datum} {content : Content}
    {scale : Nat} {v : ColumnValue} (hstores : Stores array old (some decoded) content)
    (hhas : Has chunk slot content) :
    chunk.nulls slot 0 = false ∧
      (Holds chunk slot scale (some array) v ↔ Represents scale content v) := by
  cases hstores with
  | int32 x harray =>
    subst harray
    obtain ⟨hnull, hx⟩ := hhas
    refine ⟨hnull, ?_⟩
    cases v with
    | number q =>
      show ((chunk.int32 slot 0).toInt : ℚ) = _ ↔ (x.toInt : ℚ) = _
      rw [hx]
    | string bytes => exact Iff.rfl
  | promoted x harray =>
    subst harray
    obtain ⟨hnull, hx⟩ := hhas
    refine ⟨hnull, ?_⟩
    cases v with
    | number q =>
      show ((chunk.int64 slot 0).toInt : ℚ) = _ ↔ ((storeInt32 old x).toInt : ℚ) = _
      rw [hx]
    | string bytes => exact Iff.rfl
  | int64 x harray =>
    subst harray
    obtain ⟨hnull, hx⟩ := hhas
    refine ⟨hnull, ?_⟩
    cases v with
    | number q =>
      show ((chunk.int64 slot 0).toInt : ℚ) = _ ↔ (x.toInt : ℚ) = _
      rw [hx]
    | string bytes => exact Iff.rfl
  | string bytes harray _ =>
    subst harray
    obtain ⟨hnull, hrefers⟩ := hhas
    refine ⟨hnull, ?_⟩
    cases v with
    | number q => exact Iff.rfl
    | string bytes' => exact readsString_iff hrefers

section Well

variable {kind : HeapColumns.DeformDecodeKind} {array : ScratchArray}
  {cell : Option (Except String Datum)}
  (hwf : WellFormed t (descriptor rel)) (htyped : WellTyped detoast rel t)
  (hcell : CellOf detoast rel t c input kind array cell)

include hwf htyped hcell

/-- An attribute the tuple has, and that is not NULL. -/
theorem decoded_iff (hk : input.attno - 1 < t.natts)
    (hnull : t.isnull (input.attno - 1) = false) :
    (Decoded array old input.numericScale
        (fetch (decodeNumeric detoast) kind c.atttypmod
          (t.bytesAt (t.startOf (descriptor rel) c.toCompactAttribute (input.attno - 1))
            (t.width kind (t.startOf (descriptor rel) c.toCompactAttribute (input.attno - 1)))))
        (attributeValue detoast c input.sourceDecodeKind
          (t.bytesAt (t.startOf (descriptor rel) c.toCompactAttribute (input.attno - 1))
            (t.size c.toCompactAttribute
              (t.startOf (descriptor rel) c.toCompactAttribute (input.attno - 1))))) ∧
      t.hoff + t.startOf (descriptor rel) c.toCompactAttribute (input.attno - 1) +
        max 1 (t.width kind
          (t.startOf (descriptor rel) c.toCompactAttribute (input.attno - 1))) ≤ t.len) ↔
      InputFits detoast rel t c input old := by
  have hatt := descriptor_getElem? hcell.column
  have hend := hwf.next_le hk hatt
  rw [HeapTuple.next, hnull, if_neg Bool.false_ne_true] at hend
  rw [InputFits, if_pos hk]
  have hiff := @attribute_iff detoast t c input old
    (t.startOf (descriptor rel) c.toCompactAttribute (input.attno - 1)) hcell.inputOf kind
    hcell.kind_eq array hcell.array_eq hend (fun hlen => hwf.header_le _ _ hk hatt hnull hlen)
    (fun htypid => htyped.has_char _ c hcell.column hk hnull htypid)
    fun htypid => htyped.numeric _ c hcell.column hk hnull htypid
  exact hiff.trans ⟨fun h _ => h, fun h => h hnull⟩

/-- **A slot holds its input** if and only if the input fits. -/
theorem inputHeld_iff {content : Content} (hstores : Stores array old cell content)
    (hhas : Has chunk slot content) :
    InputHeld detoast rel t c input chunk slot ↔ InputFits detoast rel t c input old := by
  have hatt := descriptor_getElem? hcell.column
  have hgetattr : t.heapGetattr (descriptor rel) (input.attno - 1) =
      if t.natts ≤ input.attno - 1 then c.missing
      else if t.isnull (input.attno - 1) then none
      else some (t.bytesAt (t.startOf (descriptor rel) c.toCompactAttribute (input.attno - 1))
        (t.size c.toCompactAttribute
          (t.startOf (descriptor rel) c.toCompactAttribute (input.attno - 1)))) := by
    rw [HeapTuple.heapGetattr, hatt]
    rfl
  have hcase := hcell.cell_eq
  by_cases hnull : t.isnull (input.attno - 1) = true
  · rw [if_pos hnull] at hcase
    subst hcase
    cases hstores
    have hflag : chunk.nulls slot 0 = true := hhas
    have hnot : ¬ t.isnull (input.attno - 1) = false := by rw [hnull]; decide
    rw [InputFits]
    by_cases hk : input.attno - 1 < t.natts
    · rw [if_neg (Nat.not_le.2 hk), if_pos hnull] at hgetattr
      rw [if_pos hk]
      refine iff_of_true ⟨fun _ => hflag, fun bytes hbytes => ?_, fun _ _ h => absurd h hnot⟩
        fun h => absurd h hnot
      rw [hgetattr] at hbytes
      cases hbytes
    · rw [if_pos (Nat.not_lt.1 hk)] at hgetattr
      rw [if_neg hk]
      constructor
      · intro h
        refine ⟨hnull, ?_⟩
        cases hmissing : c.missing with
        | none => rfl
        | some bytes =>
          have hvalue := h.value bytes (hgetattr.trans hmissing)
          rw [hflag] at hvalue
          exact absurd hvalue.1 (by decide)
      · rintro ⟨-, hmissing⟩
        refine ⟨fun _ => hflag, fun bytes hbytes => ?_, fun _ _ h => absurd h hnot⟩
        rw [hgetattr, hmissing] at hbytes
        cases hbytes
  · have hvalue : t.isnull (input.attno - 1) = false := by simpa using hnull
    rw [if_neg hnull] at hcase
    subst hcase
    have hholds := fun v =>
      @holds_iff old chunk slot array _ content input.numericScale v hstores hhas
    by_cases hk : input.attno - 1 < t.natts
    · rw [if_neg (Nat.not_le.2 hk), if_neg hnull] at hgetattr
      rw [← decoded_iff hwf htyped hcell hk hvalue]
      constructor
      · intro h
        obtain ⟨-, v, hv, hheld⟩ := h.value _ hgetattr
        rw [hcell.array_eq] at hheld
        exact ⟨⟨content, v, hstores, hv, (hholds v).2.1 hheld⟩, h.within kind hcell.kind_eq hvalue⟩
      · rintro ⟨⟨content', v, hstores', hv, hrep⟩, hwithin⟩
        obtain rfl := hstores.unique hstores'
        refine ⟨fun hnone => ?_, fun bytes hbytes => ?_, fun kind' hkind' _ => ?_⟩
        · rw [hgetattr] at hnone
          cases hnone
        · rw [hgetattr] at hbytes
          obtain rfl := Option.some.inj hbytes
          refine ⟨(hholds v).1, v, hv, ?_⟩
          rw [hcell.array_eq]
          exact (hholds v).2.2 hrep
        · obtain rfl := Option.some.inj (hcell.kind_eq.symm.trans hkind')
          exact hwithin
    · rw [InputFits, if_neg hk]
      refine iff_of_false (fun h => ?_) fun h => hnull h.1
      have hwithin := h.within kind hcell.kind_eq hvalue
      have hbehind := len_le_startOf hwf (Nat.not_lt.1 hk) hcell.column
      omega

/-- An input that fits is stored. -/
theorem exists_stores_of_fits (h : InputFits detoast rel t c input old) :
    ∃ content, Stores array old cell content := by
  have hcase := hcell.cell_eq
  by_cases hnull : t.isnull (input.attno - 1) = true
  · rw [if_pos hnull] at hcase
    subst hcase
    exact ⟨.null, .null⟩
  · rw [if_neg hnull] at hcase
    subst hcase
    have hk : input.attno - 1 < t.natts := by
      by_contra hk
      rw [InputFits, if_neg hk] at h
      exact hnull h.1
    obtain ⟨⟨content, -, hstores, -⟩, -⟩ :=
      (decoded_iff hwf htyped hcell hk (by simpa using hnull)).2 h
    exact ⟨content, hstores⟩

end Well

/-- What is not an error is stored. -/
theorem exists_stores_of_not_error {kind : HeapColumns.DeformDecodeKind} {array : ScratchArray}
    {cell : Option (Except String Datum)} (hcell : CellOf detoast rel t c input kind array cell)
    (h : ∀ e, cell ≠ some (.error e)) : ∃ content, Stores array old cell content := by
  have hcase := hcell.cell_eq
  have hkind := hcell.kind_eq
  have harray := hcell.array_eq
  by_cases hnull : t.isnull (input.attno - 1) = true
  · rw [if_pos hnull] at hcase
    subst hcase
    exact ⟨.null, .null⟩
  rw [if_neg hnull] at hcase
  subst hcase
  have hown := own_of_kind hcell.inputOf
  cases hsource : input.sourceDecodeKind with
  | int32Char =>
    rw [hsource] at hkind hown
    obtain rfl := Option.some.inj hkind
    rw [(hown (by decide) (by decide)).1] at harray
    obtain rfl := Option.some.inj harray
    exact ⟨_, .int32 _ rfl⟩
  | int32Date =>
    rw [hsource] at hkind hown
    obtain rfl := Option.some.inj hkind
    rw [(hown (by decide) (by decide)).1] at harray
    obtain rfl := Option.some.inj harray
    exact ⟨_, .int32 _ rfl⟩
  | int32Int4 =>
    rw [hsource] at hkind
    obtain rfl := Option.some.inj hkind
    rcases hcell.inputOf.own_or_promoted with ⟨hsame, -⟩ | ⟨hpromoted, -⟩
    · rw [hsame, hsource] at harray
      obtain rfl := Option.some.inj harray
      exact ⟨_, .int32 _ rfl⟩
    · rw [hpromoted] at harray
      obtain rfl := Option.some.inj harray
      exact ⟨_, .promoted _ rfl⟩
  | int64Int8 =>
    rw [hsource] at hkind
    obtain rfl := Option.some.inj hkind
    have hint64 : array = .int64 := by
      rcases hcell.inputOf.own_or_promoted with ⟨hsame, -⟩ | ⟨hpromoted, -⟩
      · rw [hsame, hsource] at harray
        exact (Option.some.inj harray).symm
      · rw [hpromoted] at harray
        exact (Option.some.inj harray).symm
    exact ⟨_, .int64 _ hint64⟩
  | int64NumericScaled =>
    rw [hsource] at hkind hown
    obtain rfl := Option.some.inj hkind
    rw [(hown (by decide) (by decide)).1] at harray
    obtain rfl := Option.some.inj harray
    cases hdecoded : decodeNumeric detoast c.atttypmod
        (t.bytesAt (t.startOf (descriptor rel) c.toCompactAttribute (input.attno - 1))
          (t.width .numeric
            (t.startOf (descriptor rel) c.toCompactAttribute (input.attno - 1)))) with
    | error e => exact absurd (congrArg some hdecoded) (h e)
    | ok d =>
      show ∃ content, Stores .int64 old (some (decodeNumeric _ _ _)) content
      rw [hdecoded]
      obtain ⟨x, rfl⟩ : ∃ x, d = .int64 x := by
        revert hdecoded
        rw [decodeNumeric]
        generalize deformNumericAttribute _ _ = result
        intro hdecoded
        cases result with
        | error e => cases hdecoded
        | ok x => exact ⟨_, (Except.ok.inj hdecoded).symm⟩
      exact ⟨_, .int64 _ rfl⟩
  | stringRef =>
    rw [hsource] at hkind hown
    obtain rfl := Option.some.inj hkind
    rw [(hown (by decide) (by decide)).1] at harray
    obtain rfl := Option.some.inj harray
    show ∃ content, Stores .string old (some (HeapColumns.storeStringBytes _)) content
    have hfetched : ∀ e, some (HeapColumns.storeStringBytes _) ≠ some (.error e) := h
    rw [HeapColumns.storeStringBytes] at hfetched ⊢
    split at hfetched
    · exact absurd rfl (hfetched _)
    · next hle =>
      rw [if_neg hle]
      exact ⟨_, .string _ rfl (Nat.not_lt.1 hle)⟩
  | doubleFloat8 =>
    rw [hsource] at hkind
    cases hkind

end Input

/-! ## The filter deform -/

theorem mapM_of_pure {m : Type → Type} [Monad m] [LawfulMonad m] {α β : Type} {f : α → m β}
    {g : α → β} {l : List α} (h : ∀ x ∈ l, f x = pure (g x)) : l.mapM f = pure (l.map g) := by
  induction l with
  | nil => rfl
  | cons x l ih =>
    rw [List.mapM_cons, h x List.mem_cons_self, pure_bind,
      ih fun y hy => h y (List.mem_cons_of_mem _ hy), pure_bind, List.map_cons]

/-- The target of an input, whose kind has one. -/
def targetOf (x : FilterInputDesc × Nat) : DeformTarget :=
  ⟨x.1.attno - 1, x.2, (filterDeformKind x.1.sourceDecodeKind).getD .int32⟩

section Published

variable {detoast : List UInt8 → List UInt8} {rel : List RelationColumn}
  {inputs : List FilterInputDesc} {t : HeapTuple} {chunk chunk' : FilterChunk}

theorem exists_kinds {c : RelationColumn} {input : FilterInputDesc} (h : InputOf c input) :
    ∃ kind array, filterDeformKind input.sourceDecodeKind = some kind ∧
      bindingArray input.decodeKind = some array := by
  rcases h.own_or_promoted with ⟨hown, hfloat, -⟩ | ⟨hpromoted, hsource⟩
  · rw [hown]
    cases hkind : input.sourceDecodeKind with
    | doubleFloat8 => exact absurd hkind hfloat
    | _ => exact ⟨_, _, rfl, rfl⟩
  · rw [hpromoted]
    rcases hsource with h | h
    · rw [h]
      exact ⟨_, _, rfl, rfl⟩
    · rw [h]
      exact ⟨_, _, rfl, rfl⟩

theorem build_eq (hpub : Published (scanSchema rel) inputs) (hne : inputs ≠ []) :
    buildFilterDeformProgram inputs = some (finalize (inputs.zipIdx.map targetOf)) ∧
      buildFilterDeformBindings inputs =
        .ok (inputs.map fun input => (bindingArray input.decodeKind).getD .int32) := by
  have hof : ∀ input ∈ inputs, ∃ c, InputOf c input := fun input hinput =>
    let ⟨c, _, hin⟩ := inputOf_of_described (hpub.described input hinput)
    ⟨c, hin⟩
  constructor
  · have htargets : inputs.zipIdx.mapM filterTarget = some (inputs.zipIdx.map targetOf) := by
      apply mapM_of_pure
      rintro ⟨input, slot⟩ hx
      obtain ⟨c, hin⟩ := hof input (List.fst_mem_of_mem_zipIdx hx)
      obtain ⟨kind, array, hkind, -⟩ := exists_kinds hin
      rw [filterTarget, if_neg hin.attno_ne, targetOf, hkind]
      rfl
    rw [buildFilterDeformProgram, if_neg, htargets]
    · rfl
    · rintro (h | h)
      · exact hne h
      · exact absurd hpub.length_le (Nat.not_le.2 h)
  · apply mapM_of_pure
    intro input hinput
    obtain ⟨c, hin⟩ := hof input hinput
    obtain ⟨kind, array, -, harray⟩ := exists_kinds hin
    rw [harray]
    rfl

/-- What the deformer writes, an input after the other in the order of their columns. -/
def writesOf (detoast : List UInt8 → List UInt8) (rel : List RelationColumn)
    (inputs : List FilterInputDesc) (t : HeapTuple) : List Write :=
  (finalize (inputs.zipIdx.map targetOf)).targets.map
    (writeFor (decodeNumeric detoast) t (descriptor rel))

theorem mem_targets {target : DeformTarget} :
    target ∈ (finalize (inputs.zipIdx.map targetOf)).targets ↔
      ∃ slot input, inputs[slot]? = some input ∧ target = targetOf (input, slot) := by
  have hperm : (finalize (inputs.zipIdx.map targetOf)).targets.Perm (inputs.zipIdx.map targetOf) :=
    List.perm_insertionSort _ _
  rw [hperm.mem_iff, List.mem_map]
  constructor
  · rintro ⟨⟨input, slot⟩, hx, rfl⟩
    exact ⟨slot, input, List.mem_zipIdx_iff_getElem?.1 hx, rfl⟩
  · rintro ⟨slot, input, hinput, rfl⟩
    exact ⟨(input, slot), List.mem_zipIdx_iff_getElem?.2 hinput, rfl⟩

theorem nodup_writesOf : ((writesOf detoast rel inputs t).map Write.dstCol).Nodup := by
  have hperm : (finalize (inputs.zipIdx.map targetOf)).targets.Perm (inputs.zipIdx.map targetOf) :=
    List.perm_insertionSort _ _
  have hslots : (writesOf detoast rel inputs t).map Write.dstCol =
      (finalize (inputs.zipIdx.map targetOf)).targets.map DeformTarget.dstCol := by
    rw [writesOf, List.map_map]
    rfl
  rw [hslots, (hperm.map _).nodup_iff, List.map_map]
  have hsnd : inputs.zipIdx.map (DeformTarget.dstCol ∘ targetOf) = inputs.zipIdx.map Prod.snd := rfl
  rw [hsnd, List.zipIdx_map_snd]
  exact List.nodup_range'

/-- The deformer on the scratch row, whose arena is emptied before. -/
theorem filterDeform_cleared (hpub : Published (scanSchema rel) inputs) (hne : inputs ≠ []) :
    filterDeform detoast rel inputs t chunk = (writesOf detoast rel inputs t).foldlM
      (storeWrite (inputs.map fun input => (bindingArray input.decodeKind).getD .int32))
        (clearArena (finalize (inputs.zipIdx.map targetOf)) chunk) := by
  obtain ⟨hprogram, hbindings⟩ := build_eq hpub hne
  have hlt : ∀ target ∈ (finalize (inputs.zipIdx.map targetOf)).targets,
      target.attIndex < (descriptor rel).length := by
    intro target htarget
    obtain ⟨slot, input, hinput, rfl⟩ := mem_targets.1 htarget
    obtain ⟨c, hc, -⟩ := inputOf_of_described (hpub.described input (List.mem_of_getElem? hinput))
    rw [descriptor, List.length_map]
    exact (List.getElem?_eq_some_iff.1 hc).1
  unfold filterDeform
  rw [hprogram, hbindings]
  show (t.deform (decodeNumeric detoast) (descriptor rel) _).foldlM _ _ = _
  rw [deform_eq hlt]
  rfl

theorem filterDeform_eq (hpub : Published (scanSchema rel) inputs) (hne : inputs ≠ []) :
    ∃ cleared : FilterChunk, cleared.int64 = chunk.int64 ∧
      filterDeform detoast rel inputs t chunk = (writesOf detoast rel inputs t).foldlM
        (storeWrite (inputs.map fun input => (bindingArray input.decodeKind).getD .int32))
          cleared := by
  refine ⟨_, ?_, filterDeform_cleared hpub hne⟩
  rw [clearArena]
  split <;> rfl

/-- Each input has its write. -/
theorem exists_write (hpub : Published (scanSchema rel) inputs) {slot : Nat}
    {input : FilterInputDesc} (hinput : inputs[slot]? = some input) :
    ∃ c kind array, ∃ w ∈ writesOf detoast rel inputs t, w.dstCol = slot ∧
      (inputs.map fun input => (bindingArray input.decodeKind).getD .int32).getD slot .int32 =
        array ∧
      CellOf detoast rel t c input kind array w.cell := by
  obtain ⟨c, hc, hin⟩ := inputOf_of_described (hpub.described input (List.mem_of_getElem? hinput))
  obtain ⟨kind, array, hkind, harray⟩ := exists_kinds hin
  refine ⟨c, kind, array, _, List.mem_map_of_mem (mem_targets.2 ⟨slot, input, hinput, rfl⟩), rfl,
    ?_, hin, hc, hkind, harray, ?_⟩
  · rw [List.getD_eq_getElem?_getD, List.getElem?_map, hinput, Option.map_some, harray]
    rfl
  · rw [writeFor, targetOf, descriptor_getElem? hc, Option.bind_some, hkind]
    rfl

theorem input_of_write {w : Write} (hw : w ∈ writesOf detoast rel inputs t) :
    ∃ input, inputs[w.dstCol]? = some input := by
  obtain ⟨target, htarget, rfl⟩ := List.mem_map.1 hw
  obtain ⟨slot, input, hinput, rfl⟩ := mem_targets.1 htarget
  exact ⟨input, hinput⟩

/-- The write of a slot is the only one. -/
theorem write_unique {w w' : Write} (hw : w ∈ writesOf detoast rel inputs t)
    (hw' : w' ∈ writesOf detoast rel inputs t) (h : w.dstCol = w'.dstCol) : w = w' :=
  List.inj_on_of_nodup_map nodup_writesOf hw hw' h

section Exact

variable (hpub : Published (scanSchema rel) inputs) (hne : inputs ≠ [])
  (hwf : WellFormed t (descriptor rel)) (htyped : WellTyped detoast rel t)

include hpub hne hwf htyped

/-- Where every write is stored, the slots hold the inputs that fit. -/
theorem held_iff_of_stores (chunk : FilterChunk)
    (h : ∀ w ∈ writesOf detoast rel inputs t, ∃ content,
      Stores ((inputs.map fun input => (bindingArray input.decodeKind).getD .int32).getD w.dstCol
        .int32) (chunk.int64 w.dstCol 0) w.cell content) :
    ∃ chunk', filterDeform detoast rel inputs t chunk = .ok chunk' ∧
      ∀ slot input c, inputs[slot]? = some input → rel[input.attno - 1]? = some c →
        (InputHeld detoast rel t c input chunk' slot ↔
          InputFits detoast rel t c input (chunk.int64 slot 0)) := by
  obtain ⟨cleared, hcleared, heq⟩ := @filterDeform_eq detoast rel inputs t chunk hpub hne
  rw [← hcleared] at h ⊢
  obtain ⟨chunk', hok, hhas, -⟩ := foldlM_storeWrite nodup_writesOf h
  refine ⟨chunk', heq.trans hok, fun slot input c hinput hc => ?_⟩
  obtain ⟨c', kind, array, w, hw, rfl, harray, hcell⟩ :=
    @exists_write detoast rel inputs t hpub slot input hinput
  obtain rfl : c' = c := Option.some.inj (hcell.column.symm.trans hc)
  obtain ⟨content, hstores, hcontent⟩ := hhas w hw
  rw [harray] at hstores
  exact inputHeld_iff hwf htyped hcell hstores hcontent

theorem fits_of_deforms (h : DeformsInputs detoast rel inputs t chunk) {slot : Nat}
    {input : FilterInputDesc} {c : RelationColumn} (hinput : inputs[slot]? = some input)
    (hc : rel[input.attno - 1]? = some c) :
    InputFits detoast rel t c input (chunk.int64 slot 0) := by
  obtain ⟨chunk', hok, hheld⟩ := h
  obtain ⟨cleared, hcleared, heq⟩ := @filterDeform_eq detoast rel inputs t chunk hpub hne
  have herror := not_error_of_foldlM (heq.symm.trans hok)
  obtain ⟨chunk'', hok', hiff⟩ := held_iff_of_stores hpub hne hwf htyped chunk fun w hw => by
    obtain ⟨input, hinput⟩ := input_of_write hw
    obtain ⟨c, kind, array, w', hw', hslot, harray, hcell⟩ :=
      @exists_write detoast rel inputs t hpub _ input hinput
    obtain rfl := write_unique hw' hw hslot
    rw [harray]
    exact exists_stores_of_not_error hcell (herror w' hw)
  obtain rfl := Except.ok.inj (hok.symm.trans hok')
  exact (hiff slot input c hinput hc).1 (hheld slot input c hinput hc)

theorem deforms_of_fits (h : ∀ slot input c, inputs[slot]? = some input →
    rel[input.attno - 1]? = some c → InputFits detoast rel t c input (chunk.int64 slot 0)) :
    DeformsInputs detoast rel inputs t chunk := by
  obtain ⟨chunk', hok, hiff⟩ := held_iff_of_stores hpub hne hwf htyped chunk fun w hw => by
    obtain ⟨input, hinput⟩ := input_of_write hw
    obtain ⟨c, kind, array, w', hw', hslot, harray, hcell⟩ :=
      @exists_write detoast rel inputs t hpub _ input hinput
    obtain rfl := write_unique hw' hw hslot
    rw [harray]
    exact exists_stores_of_fits hwf htyped hcell (h _ input c hinput hcell.column)
  exact ⟨chunk', hok, fun slot input c hinput hc =>
    (hiff slot input c hinput hc).2 (h slot input c hinput hc)⟩

end Exact

end Published

/-! ## What the lowering publishes -/

section Lowered

variable {T : TypeSupport} {schema : Schema}

/-- The requests of a test. -/
def requests : FilterTest InputRequest → List InputRequest
  | .int32CmpConst _ left _ | .int64CmpConst _ left _ | .stringConst _ left _ => [left]
  | .int32CmpVar _ left right | .int64CmpVar _ left right => [left, right]

theorem requests_mirror (name : CompareName) (t : FilterTest InputRequest) :
    requests (t.mirror name) = requests t := by
  cases t <;> rfl

/-- A test against a constant asks for the column as it is stored. -/
theorem requests_buildConst {name : CompareName} {col : Nat} {constant : Option SqlLogic.Bytes}
    {t : FilterTest InputRequest} (h : buildConst T schema name col constant = some t) :
    ∃ s, schema col = some s ∧ s.decodeKind ≠ .doubleFloat8 ∧ requests t = [.own col] := by
  obtain ⟨s, hs, h⟩ := Option.bind_eq_some_iff.1 h
  obtain ⟨text, -, h⟩ := Option.bind_eq_some_iff.1 h
  refine ⟨s, hs, ?_⟩
  have hlike : ∀ {t}, buildLikeTest col text = some t → requests t = [.own col] := by
    intro t ht
    unfold buildLikeTest at ht
    split at ht
    · cases ht; rfl
    · cases ht; rfl
    · split at ht
      · cases ht
      · cases ht; rfl
  cases hkind : s.decodeKind with
  | int32Date | int32Int4 | int32Char | int64Int8 | int64NumericScaled =>
    rw [hkind] at h
    obtain ⟨value, -, h⟩ := Option.bind_eq_some_iff.1 h
    obtain ⟨cmpOp, -, h⟩ := Option.bind_eq_some_iff.1 h
    cases h
    exact ⟨nofun, rfl⟩
  | doubleFloat8 =>
    rw [hkind] at h
    cases h
  | stringRef =>
    rw [hkind] at h
    refine ⟨nofun, ?_⟩
    cases name with
    | eq | ne =>
      obtain ⟨bytes, -, h⟩ := Option.bind_eq_some_iff.1 h
      cases h
      rfl
    | like | notLike => exact hlike h
    | lt | le | gt | ge => cases h

/-- What a comparison asks for. -/
theorem requestable_of_compareTest {c : Compare} {t : FilterTest InputRequest}
    (h : compareTest T scanTargetScale schema c = some t) :
    ∀ request ∈ requests t, Requestable schema request := by
  have hconst : ∀ {name col constant t}, buildConst T schema name col constant = some t →
      ∀ request ∈ requests t, Requestable schema request := by
    intro name col constant t ht request hrequest
    obtain ⟨s, hs, hfloat, heq⟩ := requests_buildConst ht
    rw [heq, List.mem_singleton] at hrequest
    subst hrequest
    exact .own hs hfloat
  unfold compareTest at h
  split at h
  · exact hconst h
  · obtain ⟨t', ht', rfl⟩ := Option.map_eq_some_iff.1 h
    rw [requests_mirror]
    exact hconst ht'
  · rename_i left right _ _
    obtain ⟨l, hl, h⟩ := Option.bind_eq_some_iff.1 h
    obtain ⟨r, hr, h⟩ := Option.bind_eq_some_iff.1 h
    obtain ⟨cmpOp, -, h⟩ := Option.bind_eq_some_iff.1 h
    split at h
    · next hne =>
      split at h
      · next hnumeric =>
        rw [Bool.and_eq_true] at hnumeric
        cases h
        intro request hrequest
        rcases List.mem_cons.1 hrequest with rfl | hrequest
        · exact .promoted hl hr hne hnumeric.1 hnumeric.2
        · rw [List.mem_singleton] at hrequest
          subst hrequest
          have hsymm : scanTargetScale l r = scanTargetScale r l := by
            rw [scanTargetScale, scanTargetScale, max_comm]
          rw [hsymm]
          exact .promoted hr hl hne.symm hnumeric.2 hnumeric.1
      · cases h
    · next hsame =>
      rw [not_not] at hsame
      have hown : l.decodeKind ≠ .doubleFloat8 →
          ∀ request ∈ [InputRequest.own left, .own right], Requestable schema request := by
        intro hfloat request hrequest
        rcases List.mem_cons.1 hrequest with rfl | hrequest
        · exact .own hl hfloat
        · rw [List.mem_singleton] at hrequest
          subst hrequest
          exact .own hr (hsame ▸ hfloat)
      cases hkind : l.decodeKind with
      | int32Date | int32Int4 | int32Char | int64Int8 | int64NumericScaled =>
        rw [hkind] at h
        cases h
        exact hown (by rw [hkind]; decide)
      | doubleFloat8 | stringRef =>
        rw [hkind] at h
        cases h
  · cases h

/-- One input more. -/
theorem published_scanInput {request : InputRequest} (hrequest : Requestable schema request)
    {inputs inputs' : List FilterInputDesc} {i : Nat}
    (h : scanInput schema request inputs = some (i, inputs')) (hpub : Published schema inputs) :
    Published schema inputs' := by
  have hmore : ∀ {d}, requestDesc schema request = some d → inputs.length < filterMaxInputs →
      Published schema (inputs ++ [d]) := by
    intro d hd hlt
    refine ⟨fun d' hd' => ?_, by rw [List.length_append, List.length_singleton]; omega⟩
    rcases List.mem_append.1 hd' with hd' | hd'
    · exact hpub.described d' hd'
    · rw [List.mem_singleton.1 hd']
      exact ⟨request, hrequest, hd⟩
  cases request with
  | own col =>
    obtain ⟨s, hs, h⟩ := Option.bind_eq_some_iff.1 h
    unfold lookupOrAddScanFilterInput at h
    split at h
    · cases h
      exact hpub
    · split at h
      · cases h
      · next hlt =>
        cases h
        exact hmore (by rw [requestDesc, hs]; rfl) (Nat.not_le.1 hlt)
  | promoted col targetScale =>
    obtain ⟨s, hs, h⟩ := Option.bind_eq_some_iff.1 h
    unfold lookupOrAddScanFilterInputAs at h
    split at h
    · cases h
    · next hlt =>
      split at h
      · cases h
        exact hpub
      · cases h
        exact hmore (by rw [requestDesc, hs]; rfl) (Nat.not_le.1 hlt)

theorem published_register {t : FilterTest InputRequest} {t' : FilterTest Nat}
    (ht : ∀ request ∈ requests t, Requestable schema request)
    {inputs inputs' : List FilterInputDesc}
    (h : t.register (scanInput schema) inputs = some (t', inputs'))
    (hpub : Published schema inputs) : Published schema inputs' := by
  cases t with
  | int32CmpConst _ left _ | int64CmpConst _ left _ | stringConst _ left _ =>
    obtain ⟨⟨l, inputs₁⟩, hl, h⟩ := Option.bind_eq_some_iff.1 h
    cases h
    exact published_scanInput (ht left List.mem_cons_self) hl hpub
  | int32CmpVar _ left right | int64CmpVar _ left right =>
    obtain ⟨⟨l, inputs₁⟩, hl, h⟩ := Option.bind_eq_some_iff.1 h
    obtain ⟨⟨r, inputs₂⟩, hr, h⟩ := Option.bind_eq_some_iff.1 h
    cases h
    have hleft := published_scanInput (ht left List.mem_cons_self) hl hpub
    exact published_scanInput (ht right (List.mem_cons_of_mem _ List.mem_cons_self)) hr hleft

theorem published_compare {c : Compare} {s s' : LowerState} {out : Nat}
    (h : (scanLowering T schema).compare c s = some (out, s')) (hpub : Published schema s.inputs) :
    Published schema s'.inputs := by
  obtain ⟨test, htest, h⟩ := Option.bind_eq_some_iff.1 h
  obtain ⟨⟨t, inputs⟩, hregister, h⟩ := Option.bind_eq_some_iff.1 h
  have hinputs := published_register (requestable_of_compareTest htest) hregister hpub
  dsimp only at h
  unfold LowerState.finishStep at h
  split at h
  · split at h
    · cases h
    · cases h
      exact hinputs
  · cases h
    exact hinputs

mutual

theorem published_boolExpr : ∀ (e : Expr) {s s' : LowerState} {out : Nat},
    (scanLowering T schema).boolExpr e s = some (out, s') → Published schema s.inputs →
      Published schema s'.inputs
  | .compare c, s, s', out, h, hpub => published_compare h hpub
  | .not child, s, s', out, h, hpub => by
    rw [Lowering.boolExpr] at h
    split at h
    · cases h
    · obtain ⟨⟨out', s₁⟩, hchild, h⟩ := Option.bind_eq_some_iff.1 h
      have hinputs := published_boolExpr child hchild hpub
      cases h
      exact hinputs
  | .bool type [], s, s', out, h, hpub => by
    rw [Lowering.boolExpr] at h
    cases h
  | .bool type (child :: children), s, s', out, h, hpub => by
    rw [Lowering.boolExpr] at h
    obtain ⟨⟨left, s₁⟩, hchild, h⟩ := Option.bind_eq_some_iff.1 h
    exact published_boolChildren type children h (published_boolExpr child hchild hpub)

theorem published_boolChildren (type : BoolExprType) : ∀ (es : List Expr) {left : Nat}
    {s s' : LowerState} {out : Nat},
    (scanLowering T schema).boolChildren type es left s = some (out, s') →
      Published schema s.inputs → Published schema s'.inputs
  | [], left, s, s', out, h, hpub => by
    rw [Lowering.boolChildren] at h
    cases h
    exact hpub
  | child :: children, left, s, s', out, h, hpub => by
    rw [Lowering.boolChildren] at h
    split at h
    · cases h
    · obtain ⟨⟨right, s₁⟩, hchild, h⟩ := Option.bind_eq_some_iff.1 h
      have hinputs := published_boolExpr child hchild hpub
      exact published_boolChildren type children h hinputs

end

/-- **The inputs of a lowered filter are as they are published.** -/
theorem published_of_lower {filters : List Expr} {prog : FilterProgram.Program}
    (h : lowerScanFilters T schema filters = some prog) : Published schema prog.inputs := by
  have hfrom : ∀ (filters : List Expr) (s : LowerState) (exprs : List FilterExprDesc),
      (scanLowering T schema).filtersFrom filters s exprs = some prog →
        Published schema s.inputs → Published schema prog.inputs := by
    intro filters
    induction filters with
    | nil =>
      intro s exprs h hpub
      cases h
      exact hpub
    | cons filter filters ih =>
      intro s exprs h hpub
      obtain ⟨⟨out, s'⟩, hfilter, h⟩ := Option.bind_eq_some_iff.1 h
      obtain ⟨exprs', -, h⟩ := Option.bind_eq_some_iff.1 h
      exact ih s' exprs' h (published_boolExpr filter hfilter hpub)
  exact hfrom filters _ _ h ⟨(fun d hd => nomatch hd), Nat.zero_le _⟩

end Lowered

/-! ## An integer against a numeric -/

theorem int4_attlen (len : Option Nat) (h : typlen ColumnSlots.int4Oid = some len) :
    some 4 = len :=
  Option.some.inj h

theorem numeric_attlen (len : Option Nat) (h : typlen ColumnSlots.numericOid = some len) :
    none = len :=
  Option.some.inj h

/-- A column of type `int4` and one of type `numeric(10, 2)`. -/
def integerAndNumeric : List RelationColumn :=
  [⟨⟨some 4, 4, -1, none⟩, ColumnSlots.int4Oid, int4_attlen⟩,
    ⟨⟨none, 4, 655366, none⟩, ColumnSlots.numericOid, numeric_attlen⟩]

/-- A five and a NULL. -/
def fiveAndNull : HeapTuple where
  natts := 2
  hasNulls := true
  hoff := 24
  len := 28
  bytes := fun a => if a = 23 then 1 else if a = 24 then 5 else 0

/-- Types whose constants are not looked at. -/
def noConstants : TypeSupport where
  int4In _ := none
  int8In _ := none
  dateIn _ := none
  numericIn _ := none
  stringIn _ _ _ := none
  stringCmp _ _ _ := .eq

/-- The inputs of a comparison of the two. -/
def integerAndNumericInputs : List FilterInputDesc :=
  [⟨1, .int64NumericScaled, .int32Int4, 2⟩, ⟨2, .int64NumericScaled, .int64NumericScaled, 2⟩]

theorem lower_integerAndNumeric :
    lowerScanFilters noConstants (scanSchema integerAndNumeric)
        [.compare ⟨.eq, .column 1, .column 2⟩] =
      some ⟨integerAndNumericInputs, [⟨0, 1, 0⟩], [⟨.test (.int64CmpVar .eq 0 1), 0⟩]⟩ := by
  decide

theorem fiveAndNull_wellFormed : WellFormed fiveAndNull (descriptor integerAndNumeric) := by
  refine ⟨le_rfl, fun _ => by decide, by decide, by decide, by decide,
    fun k att hk hatt hnull hlen => ?_⟩
  have hk' : k = 0 ∨ k = 1 := by
    have : k < 2 := hk
    omega
  rcases hk' with rfl | rfl
  · obtain rfl := Option.some.inj hatt
    cases hlen
  · cases hnull

theorem fiveAndNull_wellTyped (detoast : List UInt8 → List UInt8) :
    WellTyped detoast integerAndNumeric fiveAndNull := by
  have hint4 : ∀ k c, integerAndNumeric[k]? = some c → k < fiveAndNull.natts →
      fiveAndNull.isnull k = false → c.atttypid = ColumnSlots.int4Oid := by
    intro k c hc hk hnull
    have hk' : k = 0 ∨ k = 1 := by
      have : k < 2 := hk
      omega
    rcases hk' with rfl | rfl
    · obtain rfl := Option.some.inj hc
      rfl
    · cases hnull
  constructor
  · intro k c hc hk hnull htypid
    rw [hint4 k c hc hk hnull] at htypid
    cases htypid
  · intro k c hc hk hnull htypid
    rw [hint4 k c hc hk hnull] at htypid
    cases htypid

/-- A scratch row of zeros. -/
def zeroChunk : FilterChunk where
  nulls _ _ := false
  int32 _ _ := 0
  int64 _ _ := 0
  string _ _ := ⟨0, 0, []⟩
  arena := []

end FilterScratch
end PgYaap
