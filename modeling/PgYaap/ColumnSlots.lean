import Mathlib
import PgYaap.NullFlags

/-! # Column slots and the null flags they share

A chunk keeps a column in the array of its storage type, at the slot its schema names.
The translator numbers the slots of a schema with a counter for each array, but the
null flags of all arrays are kept in one: the flag of slot `s` belongs to every column
with slot `s`. The assigners are those of sequential scans, hash joins, aggregates and
projections. -/
namespace PgYaap
namespace ColumnSlots
open HashJoinProbe NullFlags

/-! ## Schemas -/

/-- `ColumnRef`. -/
structure ColumnRef where
  varno : Nat
  attno : Int
  deriving DecidableEq

/-- `ColumnSchema`. -/
structure ColumnSchema where
  typeOid : Nat
  typmod : Int
  typlen : Int
  typbyval : Bool
  chunkSlot : Nat
  srcAttno : Int
  decodeKind : ColumnDecodeKind

/-- What a scan reads of an attribute of the relation. -/
structure Attribute where
  atttypid : Nat
  atttypmod : Int
  attlen : Int
  attbyval : Bool

def charOid : Nat := 18
def int8Oid : Nat := 20
def int4Oid : Nat := 23
def textOid : Nat := 25
def float8Oid : Nat := 701
def bpcharOid : Nat := 1042
def varcharOid : Nat := 1043
def dateOid : Nat := 1082
def numericOid : Nat := 1700
def varhdrsz : Int := 4

/-! ## Counters -/

/-- The counters slots are handed out from, one for each array of the chunk. -/
inductive SlotCounter
  | int32
  | int64
  | double
  | string
  deriving DecidableEq

abbrev SlotCounters := SlotCounter → Nat

/-- Takes the next slot of a counter; slot 16 is rejected. -/
def takeSlot (counters : SlotCounters) (c : SlotCounter) : Option (Nat × SlotCounters) :=
  if 16 ≤ counters c then none
  else some (counters c, Function.update counters c (counters c + 1))

/-! ## Sequential scans -/

def useInt32CharDecodeForColumn (typeOid : Nat) (typmod : Int) : Bool :=
  if typeOid = charOid then true
  else if typeOid ≠ bpcharOid then false
  else if typmod < varhdrsz then false
  else typmod - varhdrsz = 1

def seqScanDecodeKind (attr : Attribute) : Option ColumnDecodeKind :=
  if attr.atttypid = bpcharOid then
    some (if useInt32CharDecodeForColumn attr.atttypid attr.atttypmod then .int32Char
      else .stringRef)
  else if attr.atttypid = charOid then some .int32Char
  else if attr.atttypid = dateOid then some .int32Date
  else if attr.atttypid = int4Oid then some .int32Int4
  else if attr.atttypid = int8Oid then some .int64Int8
  else if attr.atttypid = numericOid then some .int64NumericScaled
  else if attr.atttypid = float8Oid then some .doubleFloat8
  else if attr.atttypid = textOid ∨ attr.atttypid = varcharOid then some .stringRef
  else none

/-- In a scan strings are numbered together with the four-byte columns. -/
def seqScanCounter : ColumnDecodeKind → SlotCounter
  | .int64Int8 | .int64NumericScaled => .int64
  | .doubleFloat8 => .double
  | .int32Char | .int32Date | .int32Int4 | .stringRef | .none => .int32

section SeqScan
variable (rel : List Attribute) (expectedVarno : Nat)

/-- The attribute a reference names. -/
def seqScanAttribute (ref : ColumnRef) : Option Attribute :=
  if (expectedVarno ≠ 0 ∧ ref.varno ≠ expectedVarno) ∨ ref.attno ≤ 0 ∨ rel.length < ref.attno then
    none
  else rel[ref.attno.toNat - 1]?

def buildSeqScanColumnsFrom : SlotCounters → List ColumnRef → Option (List ColumnSchema)
  | _, [] => some []
  | counters, ref :: refs => do
    let attr ← seqScanAttribute rel expectedVarno ref
    let kind ← seqScanDecodeKind attr
    let (slot, counters) ← takeSlot counters (seqScanCounter kind)
    let rest ← buildSeqScanColumnsFrom counters refs
    some (⟨attr.atttypid, attr.atttypmod, attr.attlen, attr.attbyval, slot, ref.attno, kind⟩ :: rest)

/-- `BuildSeqScanColumns`. -/
def buildSeqScanColumns (refs : List ColumnRef) : Option (List ColumnSchema) :=
  buildSeqScanColumnsFrom rel expectedVarno (fun _ => 0) refs

/-- The decode kinds of the columns a scan reads. -/
def seqScanKinds (refs : List ColumnRef) : List ColumnDecodeKind :=
  refs.filterMap fun ref => (seqScanAttribute rel expectedVarno ref).bind seqScanDecodeKind

end SeqScan

/-! ## Hash joins -/

/-- `LookupRawColumn`: the first column of that name. -/
def lookupRawColumn (ref : ColumnRef) (cols : List ColumnRef) (schema : List ColumnSchema) :
    Option ColumnSchema :=
  if cols.length ≠ schema.length then none
  else ((cols.zip schema).find? fun x => x.1 = ref).map Prod.snd

/-- In a join output every array has a counter of its own. -/
def hashJoinCounter : ColumnDecodeKind → Option SlotCounter
  | .int32Char | .int32Date | .int32Int4 => some .int32
  | .int64Int8 | .int64NumericScaled => some .int64
  | .doubleFloat8 => some .double
  | .stringRef => some .string
  | .none => none

section HashJoin
variable (leftCols : List ColumnRef) (leftSchema : List ColumnSchema)
  (rightCols : List ColumnRef) (rightSchema : List ColumnSchema)

/-- The side a column comes from; the left side is looked up first. -/
def hashJoinSource (ref : ColumnRef) : Option (HashJoinOutputSide × ColumnSchema) :=
  match lookupRawColumn ref leftCols leftSchema with
  | some src => some (.left, src)
  | none => (lookupRawColumn ref rightCols rightSchema).map (.right, ·)

def buildHashJoinOutputMappingsFrom : SlotCounters → List ColumnRef →
    Option (List (HashJoinOutputColumnDesc × ColumnSchema))
  | _, [] => some []
  | counters, ref :: refs => do
    let (side, src) ← hashJoinSource leftCols leftSchema rightCols rightSchema ref
    let counter ← hashJoinCounter src.decodeKind
    let (slot, counters) ← takeSlot counters counter
    let rest ← buildHashJoinOutputMappingsFrom counters refs
    some ((⟨side, src.chunkSlot, src.decodeKind, slot⟩,
      { src with chunkSlot := slot, srcAttno := 0 }) :: rest)

/-- `BuildHashJoinOutputMappings`; an output without columns is rejected. -/
def buildHashJoinOutputMappings (outputCols : List ColumnRef) :
    Option (List (HashJoinOutputColumnDesc × ColumnSchema)) :=
  (buildHashJoinOutputMappingsFrom leftCols leftSchema rightCols rightSchema (fun _ => 0)
    outputCols).filter fun out => !out.isEmpty

/-- The decode kinds of the columns a join puts out. -/
def hashJoinKinds (outputCols : List ColumnRef) : List ColumnDecodeKind :=
  outputCols.filterMap fun ref =>
    (hashJoinSource leftCols leftSchema rightCols rightSchema ref).map (·.2.decodeKind)

end HashJoin

/-! ## Aggregates -/

/-- `TdcAggKind`. -/
inductive TdcAggKind
  | countStar
  | countNonnull
  | countDistinctNonnull
  | sumInt64
  | sumNumeric
  | avgNumeric
  | minInt64
  | minNumeric
  | maxInt64
  | maxNumeric
  deriving DecidableEq

/-- `MakeNumericTypmod`. -/
def makeNumericTypmod (precision scale : Int) : Int := precision * 65536 + scale % 2048 + varhdrsz

/-- The column of an aggregate. -/
def aggOutputColumn (kind : TdcAggKind) (scale : Int) (slot : Nat) : ColumnSchema :=
  match kind with
  | .countStar | .countNonnull | .countDistinctNonnull | .sumInt64 | .minInt64 | .maxInt64 =>
    ⟨int8Oid, -1, 8, true, slot, 0, .int64Int8⟩
  | .sumNumeric | .avgNumeric | .minNumeric | .maxNumeric =>
    ⟨numericOid, makeNumericTypmod 18 scale, -1, false, slot, 0, .int64NumericScaled⟩

/-- `BuildOptimizerAggOutput`, over the input columns its group expressions are resolved
to: group `i` goes to slot `i`, and the aggregates follow. -/
def buildOptimizerAggOutput (groups : List ColumnSchema) (aggs : List (TdcAggKind × Int)) :
    Option (List ColumnSchema) :=
  if 16 < groups.length + aggs.length then none
  else some
    (groups.zipIdx.map (fun x => { x.1 with chunkSlot := x.2, srcAttno := 0 }) ++
      aggs.zipIdx.map fun x => aggOutputColumn x.1.1 x.1.2 (groups.length + x.2))

/-! ## Projections -/

/-- `NextFreeInt64Slot` and `NextFreeStringSlot`: one past the highest slot of the columns
of these kinds. -/
def nextFreeSlot (kinds : List ColumnDecodeKind) (schema : List ColumnSchema) : Nat :=
  schema.foldl (fun next col =>
    if col.decodeKind ∈ kinds then max next (col.chunkSlot + 1) else next) 0

def int64Kinds : List ColumnDecodeKind := [.int64Int8, .int64NumericScaled]

def nextFreeInt64Slot (schema : List ColumnSchema) : Nat := nextFreeSlot int64Kinds schema

def nextFreeStringSlot (schema : List ColumnSchema) : Nat := nextFreeSlot [.stringRef] schema

/-- The slots the steps of a projection write, in the order of the steps: a step takes the
next slot of the array it writes. -/
def stepSlotsFrom : SlotCounters → List SlotCounter → Option (List Nat)
  | _, [] => some []
  | counters, c :: steps => do
    let (slot, counters) ← takeSlot counters c
    let rest ← stepSlotsFrom counters steps
    some (slot :: rest)

/-- Where the array a step writes is one of strings (`prefix_slice`) or of 64-bit integers
(every other step). -/
def stepCounter (isPrefixSlice : Bool) : SlotCounter := if isPrefixSlice then .string else .int64

/-- The counters of a projection over a child schema. -/
def projectionCounters (child : List ColumnSchema) : SlotCounters
  | .int64 => nextFreeInt64Slot child
  | .string => nextFreeStringSlot child
  | .int32 | .double => 0

/-- **The slots in use while a projection runs**: `Execute` copies the input chunk and runs
the steps on the copy, so the columns of the child stay beside those of the steps. -/
def projectionSlots (child : List ColumnSchema) (isPrefixSlice : List Bool) : Option (List Nat) :=
  (stepSlotsFrom (projectionCounters child) (isPrefixSlice.map stepCounter)).map
    (child.map (·.chunkSlot) ++ ·)

/-! ## What the flags of a schema are asked for -/

/-- Writing the null flag of one slot never changes what is read of the other. -/
def FlagsApart (s s' : Nat) : Prop := ∀ (chunk : DataChunk) (row row' : Nat) (flag : UInt8),
  (setNull chunk s row flag).nulls s' row' = chunk.nulls s' row' ∧
    (setNull chunk s' row flag).nulls s row' = chunk.nulls s row'

/-- No two columns of a chunk share a null flag. -/
def NullFlagsApart (slots : List Nat) : Prop := slots.Pairwise FlagsApart

/-- The assigners of the translator with what they are given. -/
inductive Assigner
  | seqScan (rel : List Attribute) (expectedVarno : Nat) (refs : List ColumnRef)
  | hashJoin (leftCols : List ColumnRef) (leftSchema : List ColumnSchema)
      (rightCols : List ColumnRef) (rightSchema : List ColumnSchema) (outputCols : List ColumnRef)
  | aggregate (groups : List ColumnSchema) (aggs : List (TdcAggKind × Int))
  | projection (child : List ColumnSchema) (isPrefixSlice : List Bool)

/-- The slots of the columns that are live in the chunk. -/
def Assigner.slots : Assigner → Option (List Nat)
  | .seqScan rel expectedVarno refs =>
    (buildSeqScanColumns rel expectedVarno refs).map (·.map (·.chunkSlot))
  | .hashJoin leftCols leftSchema rightCols rightSchema outputCols =>
    (buildHashJoinOutputMappings leftCols leftSchema rightCols rightSchema outputCols).map
      (·.map (·.2.chunkSlot))
  | .aggregate groups aggs => (buildOptimizerAggOutput groups aggs).map (·.map (·.chunkSlot))
  | .projection child isPrefixSlice => projectionSlots child isPrefixSlice

/-- The slots from `first` on, `n` of them. -/
def Taken (first n slot : Nat) : Prop := first ≤ slot ∧ slot < first + n

/-- **One counter for all columns**: a scan or a join draws all its slots from one counter; a
projection is over a child whose flags are apart, and takes no slot number that a column of
another array has. -/
def Assigner.OneCounter : Assigner → Prop
  | .seqScan rel expectedVarno refs => ∀ k ∈ seqScanKinds rel expectedVarno refs,
      ∀ k' ∈ seqScanKinds rel expectedVarno refs, seqScanCounter k = seqScanCounter k'
  | .hashJoin leftCols leftSchema rightCols rightSchema outputCols =>
      ∀ k ∈ hashJoinKinds leftCols leftSchema rightCols rightSchema outputCols,
        ∀ k' ∈ hashJoinKinds leftCols leftSchema rightCols rightSchema outputCols,
          hashJoinCounter k = hashJoinCounter k'
  | .aggregate _ _ => True
  | .projection child isPrefixSlice =>
      (child.map (·.chunkSlot)).Nodup ∧
      (∀ col ∈ child, col.decodeKind ∉ int64Kinds →
        ¬ Taken (nextFreeInt64Slot child) (isPrefixSlice.count false) col.chunkSlot) ∧
      (∀ col ∈ child, col.decodeKind ≠ .stringRef →
        ¬ Taken (nextFreeStringSlot child) (isPrefixSlice.count true) col.chunkSlot) ∧
      ∀ slot, Taken (nextFreeInt64Slot child) (isPrefixSlice.count false) slot →
        ¬ Taken (nextFreeStringSlot child) (isPrefixSlice.count true) slot

/-! ## Flags -/

theorem flagsApart_iff {s s' : Nat} : FlagsApart s s' ↔ s ≠ s' := by
  constructor
  · intro h heq
    subst heq
    have hwrite := (h (int32Chunk 0 0) 0 0 1).1
    simp [setNull, int32Chunk] at hwrite
  · intro hne chunk row row' flag
    constructor
    · simp [setNull, hne.symm]
    · simp [setNull, hne]

theorem nullFlagsApart_iff_nodup {slots : List Nat} : NullFlagsApart slots ↔ slots.Nodup := by
  constructor
  · exact fun h => h.imp flagsApart_iff.1
  · exact fun h => h.imp flagsApart_iff.2

/-! ## Slots of one counter -/

section HandedOut

/-- The slots of a schema are those its counters hand out. -/
def HandedOut : SlotCounters → List (SlotCounter × Nat) → Prop
  | _, [] => True
  | counters, (c, slot) :: rest =>
    slot = counters c ∧ HandedOut (Function.update counters c (counters c + 1)) rest

variable {counters : SlotCounters} {cols : List (SlotCounter × Nat)}

theorem HandedOut.le (h : HandedOut counters cols) : ∀ col ∈ cols, counters col.1 ≤ col.2 := by
  induction cols generalizing counters with
  | nil => exact fun _ hcol => nomatch hcol
  | cons col cols ih =>
    obtain ⟨hslot, hrest⟩ := h
    intro col' hcol'
    rcases List.mem_cons.1 hcol' with rfl | hmem
    · exact hslot.ge
    · have hle := ih hrest col' hmem
      by_cases heq : col'.1 = col.1
      · rw [heq, Function.update_self] at hle
        rw [heq]
        exact (Nat.le_succ _).trans hle
      · rwa [Function.update_of_ne heq] at hle

/-- The first column of a counter has the slot the counter stands at. -/
theorem HandedOut.first (h : HandedOut counters cols) {c : SlotCounter}
    (hc : ∃ col ∈ cols, col.1 = c) : (c, counters c) ∈ cols := by
  induction cols generalizing counters with
  | nil =>
    obtain ⟨_, hcol, -⟩ := hc
    exact nomatch hcol
  | cons col cols ih =>
    obtain ⟨hslot, hrest⟩ := h
    by_cases heq : col.1 = c
    · have hcol : col = (c, counters c) := Prod.ext heq (heq ▸ hslot)
      exact hcol ▸ List.mem_cons_self
    · obtain ⟨col', hcol', hc'⟩ := hc
      rcases List.mem_cons.1 hcol' with rfl | hmem
      · exact absurd hc' heq
      · have hfirst := ih hrest ⟨col', hmem, hc'⟩
        rw [Function.update_of_ne (Ne.symm heq)] at hfirst
        exact List.mem_cons_of_mem _ hfirst

theorem HandedOut.nodup_of_one (h : HandedOut counters cols)
    (hone : ∀ col ∈ cols, ∀ col' ∈ cols, col.1 = col'.1) : (cols.map Prod.snd).Nodup := by
  induction cols generalizing counters with
  | nil => exact List.nodup_nil
  | cons col cols ih =>
    obtain ⟨hslot, hrest⟩ := h
    rw [List.map_cons, List.nodup_cons]
    constructor
    · intro hin
      obtain ⟨col', hmem, heq⟩ := List.mem_map.1 hin
      have hle := hrest.le col' hmem
      rw [hone col' (List.mem_cons_of_mem _ hmem) col List.mem_cons_self, Function.update_self,
        heq, hslot] at hle
      exact Nat.not_succ_le_self _ hle
    · exact ih hrest fun a ha b hb =>
        hone a (List.mem_cons_of_mem _ ha) b (List.mem_cons_of_mem _ hb)

/-- **Slots from fresh counters are distinct exactly when one counter gives them all**: the
first column of every counter has slot 0. -/
theorem HandedOut.nodup_iff (h : HandedOut (fun _ => 0) cols) :
    (cols.map Prod.snd).Nodup ↔ ∀ col ∈ cols, ∀ col' ∈ cols, col.1 = col'.1 := by
  constructor
  · intro hnodup col hcol col' hcol'
    have hfirst := h.first ⟨col, hcol, rfl⟩
    have hfirst' := h.first ⟨col', hcol', rfl⟩
    have heq : (col.1, 0) = (col'.1, 0) := List.inj_on_of_nodup_map hnodup hfirst hfirst' rfl
    exact (Prod.mk.inj heq).1
  · exact h.nodup_of_one

end HandedOut

theorem takeSlot_eq_some {counters counters' : SlotCounters} {c : SlotCounter} {slot : Nat}
    (h : takeSlot counters c = some (slot, counters')) :
    slot = counters c ∧ counters' = Function.update counters c (counters c + 1) := by
  rw [takeSlot] at h
  split at h
  · cases h
  · simp only [Option.some.injEq, Prod.mk.injEq] at h
    exact ⟨h.1.symm, h.2.symm⟩

/-! ## Scans and joins -/

section SeqScan
variable {rel : List Attribute} {expectedVarno : Nat} {refs : List ColumnRef}
  {counters : SlotCounters} {out : List ColumnSchema}

theorem buildSeqScanColumnsFrom_handedOut
    (h : buildSeqScanColumnsFrom rel expectedVarno counters refs = some out) :
    HandedOut counters (out.map fun col => (seqScanCounter col.decodeKind, col.chunkSlot)) ∧
      out.map (·.decodeKind) = seqScanKinds rel expectedVarno refs := by
  induction refs generalizing counters out with
  | nil =>
    cases h
    exact ⟨trivial, rfl⟩
  | cons ref refs ih =>
    rw [buildSeqScanColumnsFrom] at h
    obtain ⟨attr, hattr, h⟩ := Option.bind_eq_some_iff.1 h
    obtain ⟨kind, hkind, h⟩ := Option.bind_eq_some_iff.1 h
    obtain ⟨⟨slot, counters'⟩, htake, h⟩ := Option.bind_eq_some_iff.1 h
    obtain ⟨rest, hrest, hout⟩ := Option.bind_eq_some_iff.1 h
    obtain ⟨hslot, hcounters⟩ := takeSlot_eq_some htake
    subst hslot hcounters
    rw [Option.some.injEq] at hout
    subst hout
    obtain ⟨hhanded, hkinds⟩ := ih hrest
    refine ⟨⟨rfl, hhanded⟩, ?_⟩
    rw [List.map_cons, hkinds, seqScanKinds, seqScanKinds,
      List.filterMap_cons_some (by rw [hattr]; exact hkind)]

end SeqScan

section HashJoin
variable {leftCols : List ColumnRef} {leftSchema : List ColumnSchema}
  {rightCols : List ColumnRef} {rightSchema : List ColumnSchema} {outputCols : List ColumnRef}
  {counters : SlotCounters} {out : List (HashJoinOutputColumnDesc × ColumnSchema)}

theorem buildHashJoinOutputMappingsFrom_handedOut
    (h : buildHashJoinOutputMappingsFrom leftCols leftSchema rightCols rightSchema counters
      outputCols = some out) :
    ∃ slots, HandedOut counters slots ∧ slots.map Prod.snd = out.map (·.2.chunkSlot) ∧
      slots.map (some ·.1) = (hashJoinKinds leftCols leftSchema rightCols rightSchema
        outputCols).map hashJoinCounter := by
  induction outputCols generalizing counters out with
  | nil =>
    cases h
    exact ⟨[], trivial, rfl, rfl⟩
  | cons ref refs ih =>
    rw [buildHashJoinOutputMappingsFrom] at h
    obtain ⟨⟨side, src⟩, hsrc, h⟩ := Option.bind_eq_some_iff.1 h
    obtain ⟨c, hc, h⟩ := Option.bind_eq_some_iff.1 h
    obtain ⟨⟨slot, counters'⟩, htake, h⟩ := Option.bind_eq_some_iff.1 h
    obtain ⟨rest, hrest, hout⟩ := Option.bind_eq_some_iff.1 h
    obtain ⟨hslot, hcounters⟩ := takeSlot_eq_some htake
    subst hslot hcounters
    rw [Option.some.injEq] at hout
    subst hout
    obtain ⟨slots, hhanded, hsnd, hfst⟩ := ih hrest
    refine ⟨(c, counters c) :: slots, ⟨rfl, hhanded⟩, ?_, ?_⟩
    · rw [List.map_cons, List.map_cons, hsnd]
    · rw [hashJoinKinds, List.filterMap_cons_some (by rw [hsrc]; rfl), List.map_cons,
        List.map_cons, hc, hfst]
      rfl

end HashJoin

/-! ## Projections -/

section Projection

/-- The slots a counter hands out follow one another. -/
theorem HandedOut.mem_iff {counters : SlotCounters} {cols : List (SlotCounter × Nat)}
    (h : HandedOut counters cols) (c : SlotCounter) (slot : Nat) :
    (c, slot) ∈ cols ↔ Taken (counters c) ((cols.map Prod.fst).count c) slot := by
  induction cols generalizing counters with
  | nil => simp [Taken]
  | cons col cols ih =>
    obtain ⟨c', slot'⟩ := col
    obtain ⟨hslot, hrest⟩ := h
    subst hslot
    rw [List.mem_cons, ih hrest, List.map_cons, List.count_cons]
    by_cases heq : c' = c
    · subst heq
      simp only [Function.update_self, Prod.mk.injEq, true_and, Taken, beq_self_eq_true, if_true]
      omega
    · simp only [Function.update_of_ne (Ne.symm heq), Prod.mk.injEq, Ne.symm heq, false_and,
        false_or, Taken, beq_iff_eq, heq, if_false, Nat.add_zero]

theorem HandedOut.nodup {counters : SlotCounters} {cols : List (SlotCounter × Nat)}
    (h : HandedOut counters cols) : cols.Nodup := by
  induction cols generalizing counters with
  | nil => exact List.nodup_nil
  | cons col cols ih =>
    obtain ⟨hslot, hrest⟩ := h
    rw [List.nodup_cons]
    refine ⟨fun hin => ?_, ih hrest⟩
    have hle := hrest.le col hin
    rw [Function.update_self, hslot] at hle
    exact Nat.not_succ_le_self _ hle

theorem stepSlotsFrom_handedOut {counters : SlotCounters} {steps : List SlotCounter}
    {slots : List Nat} (h : stepSlotsFrom counters steps = some slots) :
    ∃ cols, HandedOut counters cols ∧ cols.map Prod.fst = steps ∧ cols.map Prod.snd = slots := by
  induction steps generalizing counters slots with
  | nil =>
    cases h
    exact ⟨[], trivial, rfl, rfl⟩
  | cons c steps ih =>
    rw [stepSlotsFrom] at h
    obtain ⟨⟨slot, counters'⟩, htake, h⟩ := Option.bind_eq_some_iff.1 h
    obtain ⟨rest, hrest, hout⟩ := Option.bind_eq_some_iff.1 h
    obtain ⟨hslot, hcounters⟩ := takeSlot_eq_some htake
    subst hslot hcounters
    rw [Option.some.injEq] at hout
    subst hout
    obtain ⟨cols, hhanded, hfst, hsnd⟩ := ih hrest
    exact ⟨(c, counters c) :: cols, ⟨rfl, hhanded⟩, by rw [List.map_cons, hfst],
      by rw [List.map_cons, hsnd]⟩

theorem lt_nextFreeSlot {kinds : List ColumnDecodeKind} {schema : List ColumnSchema}
    {col : ColumnSchema} (hcol : col ∈ schema) (hkind : col.decodeKind ∈ kinds) :
    col.chunkSlot < nextFreeSlot kinds schema := by
  let step := fun (next : Nat) (col : ColumnSchema) =>
    if col.decodeKind ∈ kinds then max next (col.chunkSlot + 1) else next
  have hmono : ∀ (cols : List ColumnSchema) (next : Nat), next ≤ cols.foldl step next := by
    intro cols
    induction cols with
    | nil => exact fun _ => Nat.le_refl _
    | cons col cols ih =>
      intro next
      refine Nat.le_trans ?_ (ih (step next col))
      simp only [step]
      split
      · exact Nat.le_max_left _ _
      · exact Nat.le_refl _
  have hlt : ∀ (cols : List ColumnSchema) (next : Nat), col ∈ cols →
      col.chunkSlot < cols.foldl step next := by
    intro cols
    induction cols with
    | nil => exact fun _ h => nomatch h
    | cons col' cols ih =>
      intro next hmem
      rcases List.mem_cons.1 hmem with rfl | hmem
      · refine Nat.lt_of_lt_of_le ?_ (hmono cols (step next col))
        simp only [step, hkind, if_true]
        omega
      · exact ih (step next col') hmem
  exact hlt schema 0 hcol

/-- How often a projection takes from a counter. -/
theorem count_stepCounter (isPrefixSlice : List Bool) :
    (isPrefixSlice.map stepCounter).count .int64 = isPrefixSlice.count false ∧
      (isPrefixSlice.map stepCounter).count .string = isPrefixSlice.count true := by
  induction isPrefixSlice with
  | nil => exact ⟨rfl, rfl⟩
  | cons b steps ih =>
    cases b <;> simp [stepCounter, ih.1, ih.2]

theorem projectionSlots_nodup_iff {child : List ColumnSchema} {isPrefixSlice : List Bool}
    {slots : List Nat} (h : projectionSlots child isPrefixSlice = some slots) :
    slots.Nodup ↔ (Assigner.projection child isPrefixSlice).OneCounter := by
  rw [projectionSlots, Option.map_eq_some_iff] at h
  obtain ⟨fresh, hfresh, rfl⟩ := h
  obtain ⟨cols, hhanded, hfst, hsnd⟩ := stepSlotsFrom_handedOut hfresh
  obtain ⟨hcount, hcount'⟩ := count_stepCounter isPrefixSlice
  -- a fresh slot is taken from the counter of the integers or from that of the strings
  have hmem : ∀ slot, slot ∈ fresh ↔
      Taken (nextFreeInt64Slot child) (isPrefixSlice.count false) slot ∨
        Taken (nextFreeStringSlot child) (isPrefixSlice.count true) slot := by
    intro slot
    rw [← hcount, ← hcount', ← hfst]
    have hint := hhanded.mem_iff .int64 slot
    have hstr := hhanded.mem_iff .string slot
    simp only [projectionCounters] at hint hstr
    rw [← hint, ← hstr, ← hsnd, List.mem_map]
    constructor
    · rintro ⟨⟨c, s⟩, hin, rfl⟩
      have hc : c ∈ isPrefixSlice.map stepCounter := hfst ▸ List.mem_map_of_mem hin
      obtain ⟨b, -, rfl⟩ := List.mem_map.1 hc
      cases b
      · exact Or.inl hin
      · exact Or.inr hin
    · rintro (hin | hin)
      · exact ⟨_, hin, rfl⟩
      · exact ⟨_, hin, rfl⟩
  have hnodup : fresh.Nodup ↔ ∀ slot,
      Taken (nextFreeInt64Slot child) (isPrefixSlice.count false) slot →
        ¬ Taken (nextFreeStringSlot child) (isPrefixSlice.count true) slot := by
    rw [← hsnd, List.nodup_map_iff_inj_on hhanded.nodup, ← hcount, ← hcount', ← hfst]
    have hint := hhanded.mem_iff .int64
    have hstr := hhanded.mem_iff .string
    simp only [projectionCounters] at hint hstr
    constructor
    · intro hinj slot hs hs'
      have heq := hinj _ ((hint slot).2 hs) _ ((hstr slot).2 hs') rfl
      cases heq
    · rintro hapart ⟨c, s⟩ hin ⟨c', s'⟩ hin' rfl
      have hc : c ∈ isPrefixSlice.map stepCounter := hfst ▸ List.mem_map_of_mem hin
      have hc' : c' ∈ isPrefixSlice.map stepCounter := hfst ▸ List.mem_map_of_mem hin'
      obtain ⟨b, -, rfl⟩ := List.mem_map.1 hc
      obtain ⟨b', -, rfl⟩ := List.mem_map.1 hc'
      cases b <;> cases b'
      · rfl
      · exact absurd ((hstr _).1 hin') (hapart _ ((hint _).1 hin))
      · exact absurd ((hstr _).1 hin) (hapart _ ((hint _).1 hin'))
      · rfl
  rw [List.nodup_append', hnodup, Assigner.OneCounter]
  constructor
  · rintro ⟨hchild, hapart, hdisj⟩
    refine ⟨hchild, ?_, ?_, hapart⟩
    · intro col hcol _ htaken
      exact hdisj (List.mem_map_of_mem hcol) ((hmem _).2 (Or.inl htaken))
    · intro col hcol _ htaken
      exact hdisj (List.mem_map_of_mem hcol) ((hmem _).2 (Or.inr htaken))
  · rintro ⟨hchild, hint, hstr, hapart⟩
    refine ⟨hchild, hapart, ?_⟩
    intro slot hslot hin
    obtain ⟨col, hcol, rfl⟩ := List.mem_map.1 hslot
    -- a column of the counter's own array is below everything the counter hands out
    rcases (hmem _).1 hin with htaken | htaken
    · by_cases hkind : col.decodeKind ∈ int64Kinds
      · exact absurd htaken.1 (Nat.not_le.2 (lt_nextFreeSlot hcol hkind))
      · exact hint col hcol hkind htaken
    · by_cases hkind : col.decodeKind = .stringRef
      · exact absurd htaken.1 (Nat.not_le.2 (lt_nextFreeSlot hcol (List.mem_singleton.2 hkind)))
      · exact hstr col hcol hkind htaken

end Projection

/-! ## Every assigner -/

theorem buildOptimizerAggOutput_slots {groups : List ColumnSchema}
    {aggs : List (TdcAggKind × Int)} {out : List ColumnSchema}
    (h : buildOptimizerAggOutput groups aggs = some out) :
    out.map (·.chunkSlot) = List.range (groups.length + aggs.length) := by
  have hslot : ∀ (kind : TdcAggKind) (scale : Int) (slot : Nat),
      (aggOutputColumn kind scale slot).chunkSlot = slot := by
    intro kind scale slot
    cases kind <;> rfl
  rw [buildOptimizerAggOutput] at h
  split at h
  · cases h
  · cases h
    rw [List.range_add, List.map_append, List.map_map, List.map_map]
    congr 1
    · rw [List.range_eq_range']
      exact List.zipIdx_map_snd 0 groups
    · have hmap : (aggs.zipIdx.map fun x => groups.length + x.2) =
          (aggs.zipIdx.map Prod.snd).map (groups.length + ·) := by
        rw [List.map_map]
        rfl
      calc _ = aggs.zipIdx.map fun x => groups.length + x.2 :=
            List.map_congr_left fun x _ => hslot _ _ _
        _ = _ := by rw [hmap, List.zipIdx_map_snd, List.range_eq_range']

/-- **Null flags are apart exactly when one counter gives all slots.** For every assigner and
everything it is given: an aggregate's columns never share a flag; those of a scan, a join or
a projection do as soon as two counters are used. -/
theorem nullFlagsApart_iff_oneCounter (a : Assigner) {slots : List Nat}
    (h : a.slots = some slots) : NullFlagsApart slots ↔ a.OneCounter := by
  rw [nullFlagsApart_iff_nodup]
  cases a with
  | seqScan rel expectedVarno refs =>
    obtain ⟨out, hout, rfl⟩ := Option.map_eq_some_iff.1 h
    obtain ⟨hhanded, hkinds⟩ := buildSeqScanColumnsFrom_handedOut hout
    have hslots : (out.map fun col => (seqScanCounter col.decodeKind, col.chunkSlot)).map Prod.snd
        = out.map (·.chunkSlot) := by
      rw [List.map_map]
      rfl
    rw [← hslots, hhanded.nodup_iff, Assigner.OneCounter, ← hkinds]
    simp only [List.forall_mem_map]
  | hashJoin leftCols leftSchema rightCols rightSchema outputCols =>
    obtain ⟨out, hout, rfl⟩ := Option.map_eq_some_iff.1 h
    obtain ⟨slots, hhanded, hsnd, hfst⟩ :=
      buildHashJoinOutputMappingsFrom_handedOut (Option.filter_eq_some_iff.1 hout).1
    have hiff : (∀ col ∈ slots, ∀ col' ∈ slots, col.1 = col'.1) ↔
        ∀ c ∈ slots.map (some ·.1), ∀ c' ∈ slots.map (some ·.1), c = c' := by
      simp only [List.forall_mem_map, Option.some.injEq]
    rw [← hsnd, hhanded.nodup_iff, hiff, hfst, Assigner.OneCounter]
    simp only [List.forall_mem_map]
  | aggregate groups aggs =>
    obtain ⟨out, hout, rfl⟩ := Option.map_eq_some_iff.1 h
    rw [buildOptimizerAggOutput_slots hout]
    exact iff_of_true List.nodup_range trivial
  | projection child isPrefixSlice => exact projectionSlots_nodup_iff h

/-- A relation with an `int4` and an `int8` column. -/
def int4Int8 : List Attribute := [⟨int4Oid, -1, 4, true⟩, ⟨int8Oid, -1, 8, true⟩]

/-- Read alone, the first column shares its flag with none. -/
theorem nullFlagsApart_int4 : NullFlagsApart [0] :=
  (nullFlagsApart_iff_oneCounter (.seqScan int4Int8 0 [⟨1, 1⟩]) rfl).2 (by
    intro k hk k' hk'
    have h : seqScanKinds int4Int8 0 [⟨1, 1⟩] = [.int32Int4] := rfl
    rw [h, List.mem_singleton] at hk hk'
    rw [hk, hk'])

/-- Read together, both columns have slot 0. -/
theorem not_nullFlagsApart : ¬ ∀ (a : Assigner) (slots : List Nat), a.slots = some slots →
    NullFlagsApart slots := by
  intro h
  have happart := h (.seqScan int4Int8 0 [⟨1, 1⟩, ⟨1, 2⟩]) [0, 0] rfl
  rw [nullFlagsApart_iff_nodup] at happart
  exact absurd happart (by decide)

end ColumnSlots
end PgYaap
