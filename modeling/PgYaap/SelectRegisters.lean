import PgYaap.FilterAgreement
import PgYaap.TermMeanings

/-! # The registers of a select list

The items of a select list are lowered to one tape. The result of an expression lies in the `int64`
array, the first characters of a column in the string array, and a column, with casts around it or
not, stays where the child has put it. What a parent reads is right when each slot holds the term of
its item in the end; so a result must not be written over by later items, which happens when a string
gets the number of an integer's slot or the other way round, and a column must not be written over at
all.

The filters of a scan, a join and a standalone filter have registers for truth values. They are
handed out without a limit, and the evaluators have sixty-four. -/
namespace PgYaap
namespace ProjectionRegisters

open FilterProgram (BoolExprType ColumnDecodeKind Compare)
open ProjectionTape ProjectionLowering SqlLogic

/-! ## Slots that are written over -/

section Trace

variable {steps : List ProjectStep} {C : Contents} {array : Storage} {k : Nat}

/-- A slot that no step writes stays as it is. -/
theorem trace_same (h : ∀ step ∈ steps, step.outChunkSlot ≠ k) :
    trace steps C array k = C array k := by
  induction steps generalizing C with
  | nil => rfl
  | cons step steps ih =>
    obtain ⟨hne, hrest⟩ := List.forall_mem_cons.1 h
    show trace steps (traceStep C step) array k = C array k
    rw [ih hrest, traceStep, Contents.write, if_neg fun hand => hne hand.1.symm]

/-- A slot that is written in other arrays only has lost its value. -/
theorem trace_lost (hk : k < 16) (hmem : ∃ step ∈ steps, step.outChunkSlot = k)
    (hother : ∀ step ∈ steps, step.outChunkSlot = k → target step ≠ array) :
    trace steps C array k = .lost := by
  induction steps generalizing C with
  | nil => exact absurd hmem nofun
  | cons step steps ih =>
    obtain ⟨hne, hrest⟩ := List.forall_mem_cons.1 hother
    show trace steps (traceStep C step) array k = .lost
    by_cases hlater : ∃ step ∈ steps, step.outChunkSlot = k
    · exact ih hlater hrest
    · obtain ⟨step', hstep', heq⟩ := hmem
      rcases List.mem_cons.1 hstep' with rfl | hstep'
      · rw [trace_same fun step hstep hout => hlater ⟨step, hstep, hout⟩, traceStep, Contents.write,
          if_pos ⟨heq.symm, heq ▸ hk⟩, if_neg (hne heq).symm]
      · exact absurd ⟨step', hstep', heq⟩ hlater

/-- The numbers of the slots that steps write. -/
def outs (steps : List ProjectStep) : Set Nat := {k | ∃ step ∈ steps, step.outChunkSlot = k}

theorem Holds.traceStep {written : Set Nat} (h : Holds written C) (step : ProjectStep) :
    Holds (written ∪ {step.outChunkSlot}) (traceStep C step) where
  intact := fun array k hk => by
    rw [Set.mem_union, Set.mem_singleton_iff, not_or] at hk
    rw [ProjectionRegisters.traceStep, Contents.write, if_neg fun hand => hk.2 hand.1]
    exact h.intact array k hk.1
  noCell := fun array k hk array' k' => by
    rw [ProjectionRegisters.traceStep, Contents.write]
    by_cases heq : k = step.outChunkSlot ∧ step.outChunkSlot < 16
    · rw [if_pos heq]
      split <;> exact fun h => by cases h
    · rw [if_neg heq]
      by_cases hmem : k ∈ written
      · exact h.noCell array k hmem array' k'
      · -- A slot that is not there holds no column.
        have hout : k = step.outChunkSlot := hk.resolve_left hmem
        have hge : ¬ k < 16 := fun hlt => heq ⟨hout, hout ▸ hlt⟩
        rw [h.intact array k hmem, filled, if_neg hge]
        exact fun h => by cases h

/-- **Steps leave a column where it is or take its slot.** -/
theorem Holds.trace {written : Set Nat} (h : Holds written C) (steps : List ProjectStep) :
    Holds (written ∪ outs steps) (trace steps C) := by
  induction steps generalizing written C with
  | nil =>
    have hnone : outs [] = ∅ := Set.eq_empty_of_forall_notMem fun k hk => by
      obtain ⟨step, hstep, -⟩ := hk
      cases hstep
    rw [hnone, Set.union_empty]
    exact h
  | cons step steps ih =>
    have hcons : outs (step :: steps) = {step.outChunkSlot} ∪ outs steps := by
      ext k
      simp [outs, eq_comm]
    rw [hcons, ← Set.union_assoc]
    exact ih (h.traceStep step)

end Trace

/-! ## Items -/

/-- The array of an item: a column stays where it is. -/
def itemHome (columns : Columns) : SelectItem → Storage
  | .expr e =>
    match asColumn e with
    | some col => ((columns col).map fun source => storageOf source.decodeKind).getD .int64
    | none => .int64
  | .prefixSlice _ _ => .string

/-- An item as a term. -/
def itemTerm (S : ConstantSupport) (columns : Columns) : SelectItem → Term
  | .expr e => exprTerm S columns e
  | .prefixSlice col len => .result .stringPrefixSlice
      (((strtoll len).map fun value => value.toInt.toNat).getD 0) 0 [columnTerm columns col]

/-- The slots of the `int64` array that an item takes. -/
def itemSlots (columns : Columns) : SelectItem → Nat
  | .expr e => exprSlots columns e
  | .prefixSlice _ _ => 0

/-- The slots of the string array that an item takes. -/
def itemStrings : SelectItem → Nat
  | .expr _ => 0
  | .prefixSlice _ _ => 1

def listSlots (columns : Columns) (items : List SelectItem) : Nat :=
  (items.map (itemSlots columns)).sum

def listStrings (items : List SelectItem) : Nat := (items.map itemStrings).sum

/-- The numbers of the slots that items take. -/
def listWritten (columns : Columns) (items : List SelectItem) (next nextString : Nat) : Set Nat :=
  taken next (listSlots columns items) ∪ taken nextString (listStrings items)

/-- The columns of an item are read before their numbers are taken, and its result is not written
over afterwards. -/
def ItemReads (columns : Columns) (item : SelectItem) (next nextString : Nat)
    (before later : Set Nat) : Prop :=
  match item with
  | .expr e =>
    match asColumn e with
    | some col => Intact columns (before ∪ later) col
    | none => ExprReads columns e next before ∧ next + exprSlots columns e - 1 ∉ later
  | .prefixSlice col _ => Intact columns before col ∧ nextString ∉ later

/-- **The items of a select list** are read where they lie. -/
def SelectReads (columns : Columns) : List SelectItem → Nat → Nat → Set Nat → Prop
  | [], _, _, _ => True
  | item :: items, next, nextString, before =>
    ItemReads columns item next nextString before
        (listWritten columns items (next + itemSlots columns item) (nextString + itemStrings item)) ∧
      SelectReads columns items (next + itemSlots columns item) (nextString + itemStrings item)
        (before ∪ listWritten columns [item] next nextString)

/-- There is a slot for each of `n` results. -/
def Fits (next n : Nat) : Prop := ∀ i < n, next + i < 16

/-! ## What an item does -/

section Items

variable {S : ConstantSupport} {columns : Columns}

theorem exprSlots_pos : ∀ e : Expr, asColumn e = none → 0 < exprSlots columns e
  | .constant _, _ => by
    rw [exprSlots]
    exact Nat.one_pos
  | .cast child, h => by
    rw [exprSlots]
    exact exprSlots_pos child h
  | .extract _ _, _ => by
    rw [exprSlots]
    exact Nat.one_pos
  | .binary op _ lhs rhs, _ => by
    unfold exprSlots
    dsimp only
    split <;> exact Nat.succ_pos _
  | .case condition thenArm _ elseArm, _ => by
    rw [exprSlots]
    split <;> exact Nat.succ_pos _

/-- An expression that is no column is a result. -/
theorem exprTerm_ne_lost : ∀ e : Expr, asColumn e = none → exprTerm S columns e ≠ .lost
  | .constant _, _ => by
    rw [exprTerm]
    exact fun h => by cases h
  | .cast child, h => by
    rw [exprTerm]
    exact exprTerm_ne_lost child h
  | .extract _ _, _ => by
    rw [exprTerm]
    exact fun h => by cases h
  | .binary op _ lhs rhs, _ => by
    rw [exprTerm]
    unfold binaryTerm
    dsimp only
    split <;> exact fun h => by cases h
  | .case condition thenArm _ elseArm, _ => by
    rw [exprTerm]
    split <;> exact fun h => by cases h

/-- A column keeps its slot, whatever casts are around it. -/
theorem lower_asColumn {col : Nat} {s s' : LowerState} {outScale : Int} {slot : Nat} :
    ∀ e : Expr, asColumn e = some col →
      lowerOptimizerExpr S columns e s = some (outScale, slot, s') →
        s' = s ∧ ∃ source, columns col = some source ∧ slot = source.chunkSlot ∧
          exprTerm S columns e = .cell (storageOf source.decodeKind) source.chunkSlot
  | .column col', hcol, h => by
    cases hcol
    rw [lowerOptimizerExpr] at h
    obtain ⟨source, hsource, heq⟩ := Option.map_eq_some_iff.1 h
    cases heq
    exact ⟨rfl, source, hsource, rfl, by rw [exprTerm, columnTerm, hsource]⟩
  | .cast child, hcol, h => by
    rw [lowerOptimizerExpr] at h
    rw [exprTerm]
    exact lower_asColumn child hcol h

/-- A column takes no slot. -/
theorem exprSlots_asColumn {col : Nat} :
    ∀ e : Expr, asColumn e = some col → exprSlots columns e = 0
  | .column _, _ => by rw [exprSlots]
  | .cast child, h => by
    rw [exprSlots]
    exact exprSlots_asColumn child h

/-- The slots that the steps of items write. -/
structure ItemsEmit (columns : Columns) (items : List SelectItem) (s s' : SelectState)
    (new : List ProjectStep) : Prop where
  steps : s'.steps = s.steps ++ new
  out : ∀ step ∈ new,
    (target step = .int64 ∧
      ∃ i < listSlots columns items, step.outChunkSlot = (s.nextInt64Slot + i) % 256) ∨
    (target step = .string ∧ step.outChunkSlot < 16 ∧
      ∃ i < listStrings items, step.outChunkSlot = s.nextStringSlot + i)
  int64 : ∀ i < listSlots columns items, ∃ step ∈ new,
    step.outChunkSlot = (s.nextInt64Slot + i) % 256
  string : ∀ i < listStrings items, ∃ step ∈ new, step.outChunkSlot = s.nextStringSlot + i
  next : s'.nextInt64Slot = (s.nextInt64Slot + listSlots columns items) % 256
  nextString : s'.nextStringSlot = s.nextStringSlot + listStrings items

variable {items : List SelectItem} {s s' s'' : SelectState} {new rest : List ProjectStep}

/-- The numbers of the slots that are written are those that the items take. -/
theorem ItemsEmit.outs_eq (h : ItemsEmit columns items s s' new)
    (hfits : Fits s.nextInt64Slot (listSlots columns items)) :
    outs new = listWritten columns items s.nextInt64Slot s.nextStringSlot := by
  have hmod : ∀ i < listSlots columns items,
      (s.nextInt64Slot + i) % 256 = s.nextInt64Slot + i := by
    intro i hi
    have hlt := hfits i hi
    omega
  ext k
  constructor
  · rintro ⟨step, hstep, rfl⟩
    rcases h.out step hstep with ⟨-, i, hi, hout⟩ | ⟨-, -, i, hi, hout⟩
    · rw [hout, hmod i hi]
      exact .inl ⟨Nat.le_add_right _ _, by omega⟩
    · rw [hout]
      exact .inr ⟨Nat.le_add_right _ _, by omega⟩
  · rintro (⟨hle, hlt⟩ | ⟨hle, hlt⟩)
    · obtain ⟨i, rfl⟩ := Nat.exists_eq_add_of_le hle
      have hi : i < listSlots columns items := by omega
      obtain ⟨step, hstep, hout⟩ := h.int64 i hi
      exact ⟨step, hstep, hout.trans (hmod i hi)⟩
    · obtain ⟨i, rfl⟩ := Nat.exists_eq_add_of_le hle
      exact h.string i (by omega)

/-- What is written later in an array lies behind what was written in it before. -/
theorem ItemsEmit.target_ne (h : ItemsEmit columns items s s' new)
    (hfits : Fits s.nextInt64Slot (listSlots columns items)) {array : Storage} {k : Nat}
    (hint64 : array = .int64 → k < s.nextInt64Slot) (hstring : array = .string → k < s.nextStringSlot)
    (step : ProjectStep) (hstep : step ∈ new) (hout : step.outChunkSlot = k) :
    target step ≠ array := by
  rintro rfl
  rcases h.out step hstep with ⟨htarget, i, hi, heq⟩ | ⟨htarget, -, i, -, heq⟩
  · have hlt := hint64 htarget
    have hfit := hfits i hi
    omega
  · have hlt := hstring htarget
    omega

/-- A result stays exactly when its number is not taken again. -/
theorem ItemsEmit.stays_iff (h : ItemsEmit columns items s s' new)
    (hfits : Fits s.nextInt64Slot (listSlots columns items)) {C : Contents} {array : Storage}
    {k : Nat} {t : Term} (hk : k < 16) (hint64 : array = .int64 → k < s.nextInt64Slot)
    (hstring : array = .string → k < s.nextStringSlot) (ht : t ≠ .lost) :
    trace new C array k = t ↔
      C array k = t ∧ k ∉ listWritten columns items s.nextInt64Slot s.nextStringSlot := by
  rw [← h.outs_eq hfits]
  by_cases hmem : k ∈ outs new
  · refine iff_of_false (fun heq => ?_) fun hand => hand.2 hmem
    rw [trace_lost hk hmem (h.target_ne hfits hint64 hstring)] at heq
    exact ht heq.symm
  · rw [trace_same fun step hstep hout => hmem ⟨step, hstep, hout⟩, and_iff_left hmem]

/-- What an item leaves: after later items its slot holds its term exactly when it is read where it
lies. -/
def ItemLowered (S : ConstantSupport) (columns : Columns) (item : SelectItem) (s s' : SelectState)
    (slot : Nat) : Prop :=
  ∃ new, ItemsEmit columns [item] s s' new ∧ ∀ written C,
    Fits s.nextInt64Slot (itemSlots columns item) → ColumnsBelow columns s.nextInt64Slot →
      Holds written C → ∀ items s'' rest, ItemsEmit columns items s' s'' rest →
        Fits s'.nextInt64Slot (listSlots columns items) →
          (trace rest (trace new C) (itemHome columns item) slot = itemTerm S columns item ↔
            ItemReads columns item s.nextInt64Slot s.nextStringSlot written
              (listWritten columns items s'.nextInt64Slot s'.nextStringSlot))

/-- A column under casts. -/
theorem itemLowered_column {e : Expr} {col slot : Nat} {outScale : Int} {l : LowerState}
    (hs : s.nextInt64Slot < 256) (hcol : asColumn e = some col)
    (h : lowerOptimizerExpr S columns e s.toLowerState = some (outScale, slot, l)) :
    ItemLowered S columns (.expr e) s ⟨l, s.nextStringSlot⟩ slot := by
  obtain ⟨rfl, source, hsource, rfl, hterm⟩ := lower_asColumn e hcol h
  have hslots : listSlots columns [.expr e] = 0 := exprSlots_asColumn e hcol
  refine ⟨[], ⟨(List.append_nil _).symm, nofun, ?_, nofun, ?_, rfl⟩, ?_⟩
  · rw [hslots]
    exact nofun
  · rw [hslots]
    exact (Nat.mod_eq_of_lt hs).symm
  · intro written C _ _ hC items s'' rest hrest hfits
    have hhome : itemHome columns (.expr e) = storageOf source.decodeKind := by
      simp [itemHome, hcol, hsource]
    have hreads : ItemReads columns (.expr e) s.nextInt64Slot s.nextStringSlot written
        (listWritten columns items s.nextInt64Slot s.nextStringSlot) ↔
          Intact columns (written ∪ listWritten columns items s.nextInt64Slot s.nextStringSlot)
            col := by
      simp [ItemReads, hcol]
    show trace rest C _ _ = exprTerm S columns e ↔ _
    rw [hhome, hterm, hreads, ← intact_iff hsource, ← hrest.outs_eq hfits]
    exact filled_iff (hC.trace rest) _ _

/-- The result of an expression. -/
theorem itemLowered_result {e : Expr} {slot : Nat} {outScale : Int} {l : LowerState}
    (hs : s.nextInt64Slot < 256) (hcol : asColumn e = none)
    (h : lowerOptimizerExpr S columns e s.toLowerState = some (outScale, slot, l)) :
    ItemLowered S columns (.expr e) s ⟨l, s.nextStringSlot⟩ slot := by
  have hlowered := loweredExpr_of_lower e hs h
  obtain ⟨new, hemits, hrun⟩ := hlowered.placed.run
  have hslots : listSlots columns [.expr e] = exprSlots columns e := Nat.add_zero _
  have hpos : 0 < exprSlots columns e := exprSlots_pos e hcol
  refine ⟨new, ⟨hemits.steps, ?_, ?_, nofun, ?_, rfl⟩, ?_⟩
  · intro step hstep
    obtain ⟨i, hi⟩ := List.mem_iff_getElem?.1 hstep
    obtain ⟨hlt, -⟩ := List.getElem?_eq_some_iff.1 hi
    refine .inl ⟨if_neg (hemits.target step hstep), i, ?_, hemits.out i step hi⟩
    rw [hslots, ← hemits.length]
    exact hlt
  · intro i hi
    rw [hslots, ← hemits.length] at hi
    exact ⟨new[i], List.getElem_mem hi, hemits.out i _ (List.getElem?_eq_getElem hi)⟩
  · rw [hslots]
    exact hemits.next
  · intro written C hfits hbelow hC items s'' rest hrest hfitsRest
    have hlast : s.nextInt64Slot + exprSlots columns e ≤ 16 := by
      have hlt := hfits (exprSlots columns e - 1) (Nat.sub_one_lt hpos.ne')
      omega
    obtain ⟨hholds, -, hreads⟩ := hrun written C hlast hbelow hC
    have hread : trace new C .int64 slot = exprTerm S columns e ↔
        ExprReads columns e s.nextInt64Slot written :=
      hreads _ (List.mem_singleton_self _) _ (Later.refl hholds _)
    have hnext := hemits.next_eq hlast
    have hslot : slot = s.nextInt64Slot + exprSlots columns e - 1 := by
      have heq := hlowered.last hcol
      have hlt := hlowered.slot_lt
      omega
    have hhome : itemHome columns (.expr e) = .int64 := by simp [itemHome, hcol]
    have hitem : ItemReads columns (.expr e) s.nextInt64Slot s.nextStringSlot written
        (listWritten columns items l.nextInt64Slot s.nextStringSlot) ↔
          ExprReads columns e s.nextInt64Slot written ∧
            slot ∉ listWritten columns items l.nextInt64Slot s.nextStringSlot := by
      simp [ItemReads, hcol, hslot]
    have hbehind : slot < l.nextInt64Slot := by omega
    show trace rest (trace new C) _ slot = exprTerm S columns e ↔ _
    rw [hhome, hitem, ← hread]
    exact hrest.stays_iff hfitsRest (by omega) (fun _ => hbehind) nofun (exprTerm_ne_lost e hcol)

/-- The first characters of a column. -/
theorem itemLowered_prefixSlice {col slot : Nat} {len : Bytes} (hs : s.nextInt64Slot < 256)
    (h : lowerProjectionStringPrefixSlice columns col len s = some (slot, s')) :
    ItemLowered S columns (.prefixSlice col len) s s' slot := by
  obtain ⟨source, hsource, hrest⟩ := Option.bind_eq_some_iff.1 h
  obtain ⟨value, hvalue, hstep⟩ := Option.bind_eq_some_iff.1 hrest
  split at hstep
  · cases hstep
  · next hrefused =>
    simp only [Bool.or_eq_true, decide_eq_true_eq, not_or, not_not, not_le] at hrefused
    obtain ⟨⟨⟨hlt, hkind⟩, -⟩, -⟩ := hrefused
    cases hstep
    refine ⟨[⟨.stringPrefixSlice, source.chunkSlot, value.toInt.toNat, s.nextStringSlot, 0⟩],
      ⟨rfl, ?_, (fun i hi => by cases hi), ?_, (Nat.mod_eq_of_lt hs).symm, rfl⟩, ?_⟩
    · intro step hstep
      rw [List.mem_singleton.1 hstep]
      exact .inr ⟨rfl, hlt, 0, Nat.one_pos, rfl⟩
    · intro i hi
      obtain rfl : i = 0 := Nat.lt_one_iff.1 hi
      exact ⟨_, List.mem_singleton_self _, rfl⟩
    · intro written C hfits hbelow hC items s'' rest hrest hfitsRest
      have hterm : itemTerm S columns (.prefixSlice col len) = .result .stringPrefixSlice
          value.toInt.toNat 0 [.cell .string source.chunkSlot] := by
        rw [itemTerm, hvalue, columnTerm, hsource]
        simp [hkind, storageOf]
      have hread : trace [⟨.stringPrefixSlice, source.chunkSlot, value.toInt.toNat,
          s.nextStringSlot, 0⟩] C .string s.nextStringSlot =
            .result .stringPrefixSlice value.toInt.toNat 0 [.cell .string source.chunkSlot] ↔
          Intact columns written col := by
        show C.write .string s.nextStringSlot _ .string s.nextStringSlot = _ ↔ _
        rw [Contents.write, if_pos ⟨rfl, hlt⟩, if_pos rfl, Term.result.injEq, ← intact_iff hsource,
          ← filled_iff hC .string]
        simp [length, literal, operands]
      show trace rest (trace _ C) .string s.nextStringSlot = _ ↔
        Intact columns written col ∧ s.nextStringSlot ∉ _
      rw [hterm, ← hread]
      exact hrest.stays_iff hfitsRest hlt (fun h => by cases h) (fun _ => Nat.lt_succ_self _)
        fun h => by cases h

/-- **What is lowered for an item.** -/
theorem itemLowered_of_lower {item : SelectItem} {slot : Nat} (hs : s.nextInt64Slot < 256)
    (h : lowerSelectItem S columns item s = some (slot, s')) :
    ItemLowered S columns item s s' slot := by
  cases item with
  | expr e =>
    obtain ⟨⟨outScale, slot', l⟩, hlower, heq⟩ := Option.map_eq_some_iff.1 h
    cases heq
    cases hcol : asColumn e with
    | some col => exact itemLowered_column hs hcol hlower
    | none => exact itemLowered_result hs hcol hlower
  | prefixSlice col len => exact itemLowered_prefixSlice hs h

theorem ItemsEmit.append {item : SelectItem} (h : ItemsEmit columns [item] s s' new)
    (h' : ItemsEmit columns items s' s'' rest) : ItemsEmit columns (item :: items) s s'' (new ++ rest) := by
  have hslots : listSlots columns (item :: items) =
      listSlots columns [item] + listSlots columns items := by simp [listSlots]
  have hstrings : listStrings (item :: items) = listStrings [item] + listStrings items := by
    simp [listStrings]
  refine ⟨?_, fun step hstep => ?_, fun i hi => ?_, fun i hi => ?_, ?_, ?_⟩
  · rw [h'.steps, h.steps, List.append_assoc]
  · rcases List.mem_append.1 hstep with hstep | hstep
    · rcases h.out step hstep with ⟨htarget, i, hi, hout⟩ | ⟨htarget, hlt, i, hi, hout⟩
      · exact .inl ⟨htarget, i, by omega, hout⟩
      · exact .inr ⟨htarget, hlt, i, by omega, hout⟩
    · rcases h'.out step hstep with ⟨htarget, i, hi, hout⟩ | ⟨htarget, hlt, i, hi, hout⟩
      · refine .inl ⟨htarget, listSlots columns [item] + i, by omega, ?_⟩
        rw [hout, h.next, Nat.mod_add_mod, Nat.add_assoc]
      · refine .inr ⟨htarget, hlt, listStrings [item] + i, by omega, ?_⟩
        rw [hout, h.nextString, Nat.add_assoc]
  · rcases lt_or_ge i (listSlots columns [item]) with hlt | hge
    · obtain ⟨step, hstep, hout⟩ := h.int64 i hlt
      exact ⟨step, List.mem_append_left _ hstep, hout⟩
    · obtain ⟨step, hstep, hout⟩ := h'.int64 (i - listSlots columns [item]) (by omega)
      refine ⟨step, List.mem_append_right _ hstep, ?_⟩
      rw [hout, h.next, Nat.mod_add_mod]
      congr 1
      omega
  · rcases lt_or_ge i (listStrings [item]) with hlt | hge
    · obtain ⟨step, hstep, hout⟩ := h.string i hlt
      exact ⟨step, List.mem_append_left _ hstep, hout⟩
    · obtain ⟨step, hstep, hout⟩ := h'.string (i - listStrings [item]) (by omega)
      refine ⟨step, List.mem_append_right _ hstep, ?_⟩
      rw [hout, h.nextString]
      omega
  · rw [h'.next, h.next, Nat.mod_add_mod, hslots, Nat.add_assoc]
  · rw [h'.nextString, h.nextString, hstrings, Nat.add_assoc]

/-- Each item's slot holds its term. -/
def ItemsRight (S : ConstantSupport) (columns : Columns) (C : Contents) (items : List SelectItem)
    (slots : List Nat) : Prop :=
  List.Forall₂ (fun item slot => C (itemHome columns item) slot = itemTerm S columns item) items slots

/-- **What is lowered for a list of items**: one result in each slot that they take, and behind the
tape each slot holds its term exactly when the items are read where they lie. -/
theorem lowerSelectList_spec : ∀ (items : List SelectItem) {s s' : SelectState} {slots : List Nat},
    s.nextInt64Slot < 256 → lowerSelectList S columns items s = some (slots, s') →
      ∃ new, ItemsEmit columns items s s' new ∧ ∀ written C,
        Fits s.nextInt64Slot (listSlots columns items) → ColumnsBelow columns s.nextInt64Slot →
          Holds written C → (ItemsRight S columns (trace new C) items slots ↔
            SelectReads columns items s.nextInt64Slot s.nextStringSlot written)
  | [], s, s', slots, hs, h => by
    cases h
    refine ⟨[], ⟨(List.append_nil _).symm, nofun, nofun, nofun, ?_, rfl⟩, fun _ _ _ _ _ => ?_⟩
    · exact (Nat.mod_eq_of_lt hs).symm
    · exact iff_of_true .nil trivial
  | item :: items, s, s', slots, hs, h => by
    obtain ⟨⟨slot, s₁⟩, hitem, hrest⟩ := Option.bind_eq_some_iff.1 h
    obtain ⟨⟨slots', s₂⟩, hitems, heq⟩ := Option.map_eq_some_iff.1 hrest
    cases heq
    obtain ⟨new, hemits, hrun⟩ := itemLowered_of_lower hs hitem
    have hs₁ : s₁.nextInt64Slot < 256 := by
      rw [hemits.next]
      exact Nat.mod_lt _ (by decide)
    obtain ⟨new', hemits', hrun'⟩ := lowerSelectList_spec items hs₁ hitems
    refine ⟨new ++ new', hemits.append hemits', fun written C hfits hbelow hC => ?_⟩
    have hslots : listSlots columns (item :: items) =
        itemSlots columns item + listSlots columns items := by simp [listSlots]
    have hone : listSlots columns [item] = itemSlots columns item := Nat.add_zero _
    rw [hslots] at hfits
    have hfirst : Fits s.nextInt64Slot (itemSlots columns item) := fun i hi => hfits i (by omega)
    have hstring : s₁.nextStringSlot = s.nextStringSlot + itemStrings item := hemits.nextString
    have hholds : Holds (written ∪ listWritten columns [item] s.nextInt64Slot s.nextStringSlot)
        (trace new C) := by
      rw [← hemits.outs_eq (hone ▸ hfirst)]
      exact hC.trace new
    have hnext : s₁.nextInt64Slot = s.nextInt64Slot + itemSlots columns item := by
      rw [hemits.next, hone]
      rcases Nat.eq_zero_or_pos (itemSlots columns item) with hzero | hpos
      · rw [hzero]
        exact Nat.mod_eq_of_lt hs
      · have hlt := hfirst (itemSlots columns item - 1) (Nat.sub_one_lt hpos.ne')
        exact Nat.mod_eq_of_lt (by omega)
    have hlater : Fits s₁.nextInt64Slot (listSlots columns items) := by
      intro i hi
      have hlt := hfits (itemSlots columns item + i) (by omega)
      omega
    have hbelow₁ : ColumnsBelow columns s₁.nextInt64Slot := fun col source hcol hstorage hlt =>
      (hbelow col source hcol hstorage hlt).trans_le (by omega)
    have hhead := hrun written C hfirst hbelow hC items _ new' hemits' hlater
    have htail := hrun' _ _ hlater hbelow₁ hholds
    rw [ItemsRight, List.forall₂_cons, trace_append, hhead]
    show _ ∧ ItemsRight S columns (trace new' (trace new C)) items slots' ↔ _
    rw [htail, hnext, hstring]
    rfl

end Items

/-! ## The select list -/

section Select

variable {child : List SourceColumn}

theorem storageOf_int64 {kind : ColumnDecodeKind} (h : storageOf kind = .int64) :
    kind = .int64Int8 ∨ kind = .int64NumericScaled := by
  cases kind <;> cases h
  · exact .inl rfl
  · exact .inr rfl

/-- The columns of the `int64` array lie before the first slot that is free. -/
theorem nextFreeInt64Slot_spec (child : List SourceColumn) :
    nextFreeInt64Slot child < 256 ∧ ∀ source ∈ child, storageOf source.decodeKind = .int64 →
      (source.chunkSlot + 1) % 256 ≤ nextFreeInt64Slot child := by
  suffices h : ∀ next < 256, ∀ child : List SourceColumn,
      let last := child.foldl (fun next source =>
        if source.decodeKind = .int64Int8 ∨ source.decodeKind = .int64NumericScaled then
          max next ((source.chunkSlot + 1) % 256)
        else next) next
      next ≤ last ∧ last < 256 ∧ ∀ source ∈ child, storageOf source.decodeKind = .int64 →
        (source.chunkSlot + 1) % 256 ≤ last from (h 0 (by decide) child).2
  intro next hnext child
  induction child generalizing next with
  | nil => exact ⟨le_rfl, hnext, nofun⟩
  | cons source child ih =>
    have hslot : (source.chunkSlot + 1) % 256 < 256 := Nat.mod_lt _ (by decide)
    dsimp only [List.foldl_cons]
    by_cases hkind : source.decodeKind = .int64Int8 ∨ source.decodeKind = .int64NumericScaled
    · rw [if_pos hkind]
      obtain ⟨hle, hlt, hrest⟩ := ih (max next ((source.chunkSlot + 1) % 256)) (max_lt hnext hslot)
      refine ⟨(le_max_left _ _).trans hle, hlt, List.forall_mem_cons.2 ⟨fun _ => ?_, hrest⟩⟩
      exact (le_max_right _ _).trans hle
    · rw [if_neg hkind]
      obtain ⟨hle, hlt, hrest⟩ := ih next hnext
      exact ⟨hle, hlt, List.forall_mem_cons.2
        ⟨fun hstorage => absurd (storageOf_int64 hstorage) hkind, hrest⟩⟩

theorem columnsBelow_nextFree (child : List SourceColumn) :
    ColumnsBelow (child[·]?) (nextFreeInt64Slot child) := by
  intro col source hcol hstorage hlt
  have hle := (nextFreeInt64Slot_spec child).2 source (List.mem_of_getElem? hcol) hstorage
  omega

theorem holds_filled : Holds ∅ filled := ⟨fun _ _ _ => rfl, nofun⟩

/-- **A tape is right about the slots**: its results have slots that there are, and the slots of the
items hold their terms in the end. -/
def TapeRight (S : ConstantSupport) (child : List SourceColumn) (items : List SelectItem)
    (slots : List Nat) (steps : List ProjectStep) : Prop :=
  (∀ step ∈ steps, step.outChunkSlot < 16) ∧
    ItemsRight S (child[·]?) (trace steps filled) items slots

/-- **A right tape computes the select list**: what stands in the slot of an item in the end is the
value of its term over the row that the child has filled. -/
theorem TapeRight.computes {S : ConstantSupport} {items : List SelectItem} {slots : List Nat}
    {steps : List ProjectStep} (h : TapeRight S child items slots steps) {yearOf : Int32 → Int64}
    {row row' : Row} (hrun : execute yearOf steps row = .ok row') :
    List.Forall₂ (fun item slot => ∀ v, (itemTerm S (child[·]?) item).eval yearOf row = .ok v →
      cellValue row' (itemHome (child[·]?) item) slot = v) items slots := by
  refine h.2.imp fun item slot hterm v hv => ?_
  apply stands_execute (stands_filled yearOf row) h.1 hrun
  rw [hterm]
  exact hv

/-- **The slots suffice**: there is one for each result, and the items are read where they lie. -/
def SlotsSuffice (child : List SourceColumn) (items : List SelectItem) : Prop :=
  Fits (nextFreeInt64Slot child) (listSlots (child[·]?) items) ∧
    SelectReads (child[·]?) items (nextFreeInt64Slot child) (nextFreeStringSlot child) ∅

/-- **A select list has the right tape exactly when the slots suffice.** -/
theorem lowerSelect_right_iff {S : ConstantSupport} {items : List SelectItem} {slots : List Nat}
    {steps : List ProjectStep} (h : lowerSelect S child items = some (slots, steps)) :
    TapeRight S child items slots steps ↔ SlotsSuffice child items := by
  obtain ⟨⟨slots', s'⟩, hlist, heq⟩ := Option.map_eq_some_iff.1 h
  cases heq
  obtain ⟨new, hemits, hrun⟩ := lowerSelectList_spec items (nextFreeInt64Slot_spec child).1 hlist
  have hsteps : s'.steps = new := hemits.steps
  rw [TapeRight, hsteps]
  by_cases hfits : Fits (nextFreeInt64Slot child) (listSlots (child[·]?) items)
  · have hout : ∀ step ∈ new, step.outChunkSlot < 16 := by
      intro step hstep
      rcases hemits.out step hstep with ⟨-, i, hi, heq⟩ | ⟨-, hlt, -⟩
      · have hlt := hfits i hi
        dsimp only at heq
        omega
      · exact hlt
    rw [and_iff_right hout, hrun ∅ filled hfits (columnsBelow_nextFree child) holds_filled]
    exact (and_iff_right hfits).symm
  · refine iff_of_false (fun hright => hfits fun i hi => ?_) fun hsuffice => hfits hsuffice.1
    -- A counter that goes past sixteen meets every number on its way.
    have hnext := (nextFreeInt64Slot_spec child).1
    by_contra hge
    have hfirst : 16 - nextFreeInt64Slot child ≤ i := by omega
    obtain ⟨step, hstep, heq⟩ := hemits.int64 (16 - nextFreeInt64Slot child) (by omega)
    have hlt := hright.1 step hstep
    dsimp only at heq
    omega

end Select
/-! ## Filters -/

section Filters

open FilterProgram

variable {reading : FilterProgram.Compare → Except FilterError Bool}

mutual

theorem twoValued_ne (h : ∀ c, reading c ≠ .error .outOfBounds) :
    ∀ e : FilterProgram.Expr, e.twoValued reading ≠ .error .outOfBounds
  | .compare c => h c
  | .not child => by
    have hchild := twoValued_ne h child
    rw [Expr.twoValued]
    cases hb : child.twoValued reading with
    | error e => exact fun heq => hchild (hb.trans heq)
    | ok b => exact nofun
  | .bool _ [] => by
    rw [Expr.twoValued]
    exact nofun
  | .bool type (child :: children) => by
    have hchild := twoValued_ne h child
    rw [Expr.twoValued]
    cases hb : child.twoValued reading with
    | error e => exact fun heq => hchild (hb.trans heq)
    | ok b => exact twoValuedChildren_ne h type children b

theorem twoValuedChildren_ne (h : ∀ c, reading c ≠ .error .outOfBounds) (type : BoolExprType) :
    ∀ (children : List FilterProgram.Expr) (b : Bool),
      twoValuedChildren reading type children b ≠ .error .outOfBounds
  | [], b => by
    rw [twoValuedChildren]
    exact nofun
  | child :: children, b => by
    have hchild := twoValued_ne h child
    rw [twoValuedChildren]
    cases hr : child.twoValued reading with
    | error e => exact fun heq => hchild (hr.trans heq)
    | ok r => exact twoValuedChildren_ne h type children (type.combine b r)

end

theorem twoValuedFilters_ne (h : ∀ c, reading c ≠ .error .outOfBounds) :
    ∀ filters, twoValuedFilters reading filters ≠ .error .outOfBounds
  | [] => fun h => by cases h
  | filter :: filters => by
    have hfilter := twoValued_ne h filter
    have hrest := twoValuedFilters_ne h filters
    rw [twoValuedFilters]
    cases hb : filter.twoValued reading with
    | error e => exact fun heq => hfilter (hb.trans heq)
    | ok b =>
      cases b
      · exact fun h => by cases h
      · exact hrest

/-- A test can fail at a rescaling only. -/
theorem reading_ne (L : Lowering) (schema : Schema) (E : Evaluator) (c : FilterProgram.Compare) :
    L.reading schema E c ≠ .error .outOfBounds := by
  have htest : ∀ t : FilterTest FilterInputDesc, E.evalTest t ≠ .error .outOfBounds := by
    intro t
    cases t with
    | int64CmpVar cmpOp left right =>
      rw [Evaluator.evalTest]
      split
      · exact fun h => by cases h
      · split
        · dsimp only
          split <;> exact fun h => by cases h
        · exact fun h => by cases h
    | _ => exact fun h => by cases h
  rw [Lowering.reading]
  split
  · exact fun h => by cases h
  · next t _ =>
    cases hb : E.evalTest t with
    | error e => exact fun heq => htest t (hb.trans heq)
    | ok b => exact fun h => by cases h

/-- A run that ends out of bounds is not the one of its filters. -/
theorem bounded_iff {L : Lowering} {schema : Schema} {E : Evaluator}
    {filters : List FilterProgram.Expr} {result : Except FilterError Bool}
    (h : result = if filterRegisters filters ≤ filterMaxBoolRegs then
      twoValuedFilters (L.reading schema E) filters else .error .outOfBounds) :
    result = twoValuedFilters (L.reading schema E) filters ↔
      filterRegisters filters ≤ filterMaxBoolRegs := by
  rw [h]
  by_cases hfits : filterRegisters filters ≤ filterMaxBoolRegs
  · rw [if_pos hfits]
    exact iff_of_true rfl hfits
  · rw [if_neg hfits]
    exact iff_of_false (fun heq => twoValuedFilters_ne (reading_ne L schema E) filters heq.symm) hfits

end Filters

open FilterProgram (TypeSupport Schema Program FilterInputDesc scanEvaluator filterEvaluator
  joinEvaluator scanLowering joinLowering lowerScanFilters lowerJoinFilters executeJoin
  twoValuedFilters filterRegisters filterMaxBoolRegs)

/-- The registers of a filter program suffice for a scan and a standalone filter on a row: both find
what the filters say. -/
def ScanFiltersRight (T : TypeSupport) (schema : Schema) (scratch : FilterInputDesc → Int64)
    (row : FilterProgram.Row) (filters : List FilterProgram.Expr) (prog : Program) : Prop :=
  (scanEvaluator scratch row).executeScan prog =
      twoValuedFilters ((scanLowering T schema).reading schema (scanEvaluator scratch row)) filters ∧
    (filterEvaluator row).execute prog =
      twoValuedFilters ((scanLowering T schema).reading schema (filterEvaluator row)) filters

/-- The same for a join. -/
def JoinFiltersRight (T : TypeSupport) (schema : Schema) (row : FilterProgram.Row)
    (filters : List FilterProgram.Expr) (prog : Program) : Prop :=
  executeJoin schema row prog =
    twoValuedFilters ((joinLowering T schema).reading schema (joinEvaluator row)) filters

/-- Constants are read by the server's readers, any text may be a number. -/
def plainSupport : ConstantSupport := ⟨FilterProgram.decimalSupport, fun _ => true⟩

/-- A column of eight-byte integers. -/
def int8Column (slot : Nat) (h : slot < 256) : SourceColumn :=
  ⟨⟨20, -1, .int64Int8, .left⟩, slot, h⟩

/-- The first column divided by two. -/
def halfItem : SelectItem := .expr (.binary .div 20 (.column 0) (.constant (some [50])))

end ProjectionRegisters
end PgYaap
