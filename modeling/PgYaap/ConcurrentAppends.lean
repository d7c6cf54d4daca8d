import Mathlib
import PgYaap.TransitionSystem
import PgYaap.TupleDataCollectionRows

/-! # Concurrent appends

Workers that share a collection append rows with `TupleDataCollectionAppendRow` and
string bytes with `TupleDataCollectionStoreStringBytes`. Both reserve under the
spinlock of the collection: they read a counter, refuse when the capacity does not
allow more, and write the counter back. The bytes of a string are copied into the
reserved part of the heap after the lock has been released, and a row is filled in
by its caller, so copies and row writes of many workers go on at the same time.

Every access to the shared collection is one step, so a run is an arbitrary
interleaving. The bytes a caller passes are a value; a worker that waits for the
lock stays where it is. The counters are natural numbers: a reservation never
passes a capacity, so they do not wrap. -/
namespace PgYaap
namespace ConcurrentAppends
open TupleDataCollection

/-- What a caller passes as the bytes of a string: a null pointer with a length, or
bytes. -/
inductive StringSource
  | null (len : Nat)
  | bytes (data : List UInt8)

/-- A string that does not go into its reference. -/
abbrev LongString := { data : List UInt8 // 8 < data.length }

/-- What an idle worker does next: one of the two calls, or a write into a row. -/
inductive Action
  | appendRow
  | storeStringBytes (source : StringSource)
  | writeRow (rowIdx offset : Nat) (bytes : List UInt8)

/-- Where a worker stands inside a call, with the locals it holds there. Each
constructor other than `idle` names the shared access the worker performs next. -/
inductive Pc
  | idle
  | rowLock
  | rowLoad
  | rowStore (cur : Nat)
  | rowUnlock (answer : Option Nat)
  | heapLock (data : LongString)
  | heapLoad (data : LongString)
  | heapStore (data : LongString) (heapUsed : Nat)
  | heapUnlock (data : LongString) (answer : Option Nat)
  | copy (data : LongString) (heapOffset : Nat)

/-- A string that was stored, with the reference the caller got. -/
structure StoredString where
  data : List UInt8
  ref : VecStringRef

/-- The collection, its lock with the worker that holds it, the program counter of
every worker, and the history: the row indices returned to callers, the heap ranges
reserved, by offset and length, and the strings stored. -/
structure Config (Worker : Type) where
  tdc : TupleDataCollection
  mutex : Option Worker
  pc : Worker → Pc
  rows : List Nat
  ranges : List (Nat × Nat)
  strings : List StoredString

variable {Worker : Type} [DecidableEq Worker]

/-- Move one worker; the others stay where they are. -/
def Config.goto (c : Config Worker) (w : Worker) (pc : Pc) : Config Worker :=
  { c with pc := Function.update c.pc w pc }

/-- `SpinLockAcquire`: the worker spins while another one holds the lock. -/
def Config.acquire (c : Config Worker) (w : Worker) (next : Pc) : Config Worker :=
  if c.mutex = none then { c with mutex := some w }.goto w next else c

/-- `SpinLockRelease`. -/
def Config.release (c : Config Worker) (w : Worker) (next : Pc) : Config Worker :=
  { c with mutex := none }.goto w next

/-- `TupleDataCollectionStoreStringBytes` up to its first shared access: a string of
no bytes and a string that fits its reference are stored without one. -/
def Config.storeStringBytes (c : Config Worker) (w : Worker) (data : List UInt8) : Config Worker :=
  if data.length = 0 then
    { c with strings := c.strings ++ [⟨data, ⟨data.length, 0, stringPrefix data⟩⟩] }
  else if h : data.length ≤ 8 then
    { c with strings := c.strings ++
        [⟨data, ⟨data.length, VecStringRef.inlineOffset, stringPrefix data⟩⟩] }
  else c.goto w (.heapLock ⟨data, Nat.lt_of_not_le h⟩)

/-- A write into a row that was handed out, within its bytes. -/
def Config.writeRow (c : Config Worker) (rowIdx offset : Nat) (bytes : List UInt8) :
    Config Worker :=
  if rowIdx ∈ c.rows ∧ offset + bytes.length ≤ c.tdc.rowWidth then
    { c with tdc := { c.tdc with rows := c.tdc.rows.write (c.tdc.getRow rowIdx + offset) bytes } }
  else c

/-- The step of an idle worker. A null pointer is no string: its reference has no
bytes, whatever its length. -/
def Config.call (c : Config Worker) (w : Worker) : Action → Config Worker
  | .appendRow => c.goto w .rowLock
  | .storeStringBytes (.null _) => c
  | .storeStringBytes (.bytes data) => c.storeStringBytes w data
  | .writeRow rowIdx offset bytes => c.writeRow rowIdx offset bytes

/-- The read of the row count and the check against the capacity. -/
def Config.loadRowCount (c : Config Worker) (w : Worker) : Config Worker :=
  if c.tdc.rowCapacity ≤ c.tdc.rowCount then c.goto w (.rowUnlock none)
  else c.goto w (.rowStore c.tdc.rowCount)

/-- The read of the used heap bytes and the check against the capacity. -/
def Config.loadHeapUsed (c : Config Worker) (w : Worker) (data : LongString) : Config Worker :=
  if c.tdc.heapCapacity < c.tdc.heapUsed ∨
      c.tdc.heapCapacity - c.tdc.heapUsed < data.val.length then
    c.goto w (.heapUnlock data none)
  else c.goto w (.heapStore data c.tdc.heapUsed)

/-- The next access of a worker; an action counts only where the worker is idle. -/
def Config.advance (c : Config Worker) (w : Worker) (action : Action) : Pc → Config Worker
  | .idle => c.call w action
  | .rowLock => c.acquire w .rowLoad
  | .rowLoad => c.loadRowCount w
  | .rowStore cur =>
    { c with tdc := { c.tdc with rowCount := cur + 1 } }.goto w (.rowUnlock (some cur))
  | .rowUnlock answer => { c with rows := c.rows ++ answer.toList }.release w .idle
  | .heapLock data => c.acquire w (.heapLoad data)
  | .heapLoad data => c.loadHeapUsed w data
  | .heapStore data heapUsed =>
    { c with
      tdc := { c.tdc with heapUsed := heapUsed + data.val.length }
      ranges := c.ranges ++ [(heapUsed, data.val.length)] }.goto w
        (.heapUnlock data (some heapUsed))
  | .heapUnlock _ none => c.release w .idle
  | .heapUnlock data (some heapOffset) => c.release w (.copy data heapOffset)
  | .copy data heapOffset =>
    { c with
      tdc := { c.tdc with rows := c.tdc.rows.write (c.tdc.heap + heapOffset) data.val }
      strings := c.strings ++
        [StoredString.mk data.val ⟨data.val.length, heapOffset, stringPrefix data.val⟩] }.goto w
          .idle

/-- One step: a worker, and what it does if it is idle. -/
def step (c : Config Worker) (label : Worker × Action) : Config Worker :=
  c.advance label.1 label.2 (c.pc label.1)

/-- Workers about to share a collection, whatever it holds. -/
def start (tdc : TupleDataCollection) : Config Worker := ⟨tdc, none, fun _ => .idle, [], [], []⟩

/-- The configuration after a schedule of steps. -/
def run (tdc : TupleDataCollection) (schedule : List (Worker × Action)) : Config Worker :=
  schedule.foldl step (start tdc)

/-- **What was handed out.** The rows are apart from each other and within the
capacity, and so are the heap ranges. -/
structure HandsOut (tdc : TupleDataCollection) (c : Config Worker) : Prop where
  rows : c.rows.Nodup
  rows_lt : ∀ row ∈ c.rows, row < tdc.rowCapacity
  ranges : c.ranges.Pairwise fun r r' => r.1 + r.2 ≤ r'.1 ∨ r'.1 + r'.2 ≤ r.1
  ranges_le : ∀ r ∈ c.ranges, r.1 + r.2 ≤ tdc.heapCapacity

/-! ## The lock -/

/-- The worker is between acquiring and releasing the lock. -/
def Pc.Locked : Pc → Prop
  | .idle | .rowLock | .heapLock _ | .copy _ _ => False
  | _ => True

/-- Only the holder of the lock is inside. -/
def Exclusive (c : Config Worker) : Prop := ∀ w, (c.pc w).Locked → c.mutex = some w

section Lock
variable {c c' : Config Worker} {w : Worker} {pc : Pc}

/-- A move of one worker that leaves the lock of another alone. -/
theorem Exclusive.update (h : Exclusive c) (hpc : c'.pc = Function.update c.pc w pc)
    (hmutex : c.mutex = some w ∨ c.mutex = none ∨ c'.mutex = c.mutex)
    (hw : pc.Locked → c'.mutex = some w) : Exclusive c' := by
  intro v hv
  rw [hpc] at hv
  by_cases hvw : v = w
  · subst hvw
    rw [Function.update_self] at hv
    exact hw hv
  · rw [Function.update_of_ne hvw] at hv
    have hheld := h v hv
    rcases hmutex with hmutex | hmutex | hmutex
    · rw [hheld] at hmutex
      exact absurd (Option.some.inj hmutex) hvw
    · rw [hheld] at hmutex
      cases hmutex
    · rw [hmutex]
      exact hheld

omit [DecidableEq Worker] in
/-- A worker other than the one that moves is not inside while that one is. -/
theorem Exclusive.other (h : Exclusive c) (hw : (c.pc w).Locked) {v : Worker} (hv : v ≠ w) :
    ¬ (c.pc v).Locked := by
  intro hin
  have hheld := h v hin
  rw [h w hw] at hheld
  exact hv (Option.some.inj hheld).symm

end Lock

/-! ## Rows -/

/-- What a worker that reserves a row knows. -/
def RowKnows (c : Config Worker) : Pc → Prop
  | .rowStore cur => cur = c.tdc.rowCount ∧ cur < c.tdc.rowCapacity
  | .rowUnlock (some cur) =>
    cur + 1 = c.tdc.rowCount ∧ cur < c.tdc.rowCapacity ∧ ∀ row ∈ c.rows, row < cur
  | _ => True

omit [DecidableEq Worker] in
/-- A worker outside the lock has reserved nothing. -/
theorem rowKnows_of_not_locked {c : Config Worker} {pc : Pc} (h : ¬ pc.Locked) :
    RowKnows c pc := by
  cases pc with
  | rowStore cur => exact absurd trivial h
  | rowUnlock answer => exact absurd trivial h
  | _ => trivial

/-- The rows handed out are below the row count. -/
structure RowInv (c : Config Worker) : Prop where
  knows : ∀ w, RowKnows c (c.pc w)
  nodup : c.rows.Nodup
  lt : ∀ row ∈ c.rows, row < c.tdc.rowCapacity ∧ row < c.tdc.rowCount

section Rows
variable {c c' : Config Worker} {w : Worker} {pc : Pc}

/-- A move of one worker that hands out no row. -/
theorem RowInv.update (h : RowInv c) (hpc : c'.pc = Function.update c.pc w pc)
    (hcount : c'.tdc.rowCount = c.tdc.rowCount) (hcapacity : c'.tdc.rowCapacity = c.tdc.rowCapacity)
    (hrows : c'.rows = c.rows) (hw : RowKnows c' pc) : RowInv c' := by
  refine ⟨fun v => ?_, ?_, ?_⟩
  · rw [hpc]
    by_cases hvw : v = w
    · subst hvw
      rw [Function.update_self]
      exact hw
    · rw [Function.update_of_ne hvw]
      have hknown := h.knows v
      unfold RowKnows at hknown ⊢
      rw [hcount, hcapacity, hrows]
      exact hknown
  · rw [hrows]
    exact h.nodup
  · rw [hrows, hcount, hcapacity]
    exact h.lt

/-- The row count moves past the row the holder of the lock has read. -/
theorem RowInv.reserve (h : RowInv c) (hlock : Exclusive c) {cur : Nat}
    (hat : c.pc w = .rowStore cur) :
    RowInv ({ c with tdc := { c.tdc with rowCount := cur + 1 } }.goto w
      (.rowUnlock (some cur))) := by
  have hin : (c.pc w).Locked := by
    rw [hat]
    trivial
  have hknown := h.knows w
  rw [hat] at hknown
  obtain ⟨rfl, hlt⟩ := hknown
  refine ⟨fun v => ?_, h.nodup, fun row hrow => ?_⟩
  · show RowKnows _ (Function.update c.pc w _ v)
    by_cases hvw : v = w
    · subst hvw
      rw [Function.update_self]
      exact ⟨rfl, hlt, fun row hrow => (h.lt row hrow).2⟩
    · rw [Function.update_of_ne hvw]
      exact rowKnows_of_not_locked (hlock.other hin hvw)
  · exact ⟨(h.lt row hrow).1, Nat.lt_succ_of_lt (h.lt row hrow).2⟩

/-- The reserved row is handed out. -/
theorem RowInv.handOut (h : RowInv c) (hlock : Exclusive c) {answer : Option Nat}
    (hat : c.pc w = .rowUnlock answer) :
    RowInv ({ c with rows := c.rows ++ answer.toList }.release w .idle) := by
  have hin : (c.pc w).Locked := by
    rw [hat]
    trivial
  have hknown := h.knows w
  rw [hat] at hknown
  refine ⟨fun v => ?_, ?_, ?_⟩
  · show RowKnows _ (Function.update c.pc w _ v)
    by_cases hvw : v = w
    · subst hvw
      rw [Function.update_self]
      trivial
    · rw [Function.update_of_ne hvw]
      exact rowKnows_of_not_locked (hlock.other hin hvw)
  · show (c.rows ++ answer.toList).Nodup
    cases answer with
    | none =>
      rw [Option.toList_none, List.append_nil]
      exact h.nodup
    | some cur =>
      obtain ⟨-, -, hbelow⟩ := hknown
      rw [Option.toList_some, ← List.concat_eq_append, List.nodup_concat]
      exact ⟨fun hmem => Nat.lt_irrefl _ (hbelow cur hmem), h.nodup⟩
  · show ∀ row ∈ c.rows ++ answer.toList, _
    intro row hrow
    rcases List.mem_append.mp hrow with hrow | hrow
    · exact h.lt row hrow
    · cases answer with
      | none => cases hrow
      | some cur =>
        obtain ⟨hcount, hlt, -⟩ := hknown
        obtain rfl := List.mem_singleton.mp hrow
        exact ⟨hlt, by show row < c.tdc.rowCount; omega⟩

end Rows

/-! ## The heap -/

/-- The heap range a worker has reserved and not filled yet. -/
def Pc.filling : Pc → Option (Nat × Nat)
  | .heapUnlock data (some heapOffset) => some (heapOffset, data.val.length)
  | .copy data heapOffset => some (heapOffset, data.val.length)
  | _ => none

/-- What a worker that reserves a heap range knows. -/
def HeapKnows (c : Config Worker) : Pc → Prop
  | .heapStore data heapUsed =>
    heapUsed = c.tdc.heapUsed ∧ heapUsed + data.val.length ≤ c.tdc.heapCapacity
  | _ => True

/-- A reference does not need the bytes of a heap range. -/
def Untouched (ref : VecStringRef) (r : Nat × Nat) : Prop :=
  ref.len = 0 ∨ ref.isInline = true ∨ ref.offset + ref.len ≤ r.1 ∨ r.1 + r.2 ≤ ref.offset

/-- Two heap ranges without a byte in common. -/
def Apart (r r' : Nat × Nat) : Prop := r.1 + r.2 ≤ r'.1 ∨ r'.1 + r'.2 ≤ r.1

/-- **The heap invariant.** The ranges follow each other up to the used part of the
heap. A range that is still to be filled belongs to one worker, and no stored string
needs its bytes; every stored string reads back. -/
structure HeapInv (c : Config Worker) : Prop where
  knows : ∀ w, HeapKnows c (c.pc w)
  ordered : c.ranges.Pairwise fun r r' => r.1 + r.2 ≤ r'.1
  inside : ∀ r ∈ c.ranges, r.1 + r.2 ≤ c.tdc.heapUsed ∧ r.1 + r.2 ≤ c.tdc.heapCapacity
  filling : ∀ w r, (c.pc w).filling = some r →
    r.1 + r.2 ≤ c.tdc.heapUsed ∧ ∀ s ∈ c.strings, Untouched s.ref r
  apart : ∀ v w r r', v ≠ w → (c.pc v).filling = some r → (c.pc w).filling = some r' → Apart r r'
  strings : ∀ s ∈ c.strings, s.ref.data c.tdc.rows c.tdc.heap = s.data ∧
    s.ref.Within 0 c.tdc.heapUsed

/-- A write into a heap range leaves the strings that do not need it. -/
theorem data_write_heap {ref : VecStringRef} {m : ByteMemory} {heap start : Nat}
    {bytes : List UInt8} (h : Untouched ref (start, bytes.length)) :
    ref.data (m.write (heap + start) bytes) heap = ref.data m heap := by
  unfold VecStringRef.data
  rcases h with h | h | h
  · rw [if_pos h, if_pos h]
  · by_cases hlen : ref.len = 0
    · rw [if_pos hlen, if_pos hlen]
    · rw [if_neg hlen, if_neg hlen, if_pos h, if_pos h]
  · congr 2
    refine ByteMemory.read_write_apart ?_
    rcases h with h | h
    · left
      omega
    · right
      show heap + start + bytes.length ≤ heap + ref.offset
      have hend : start + bytes.length ≤ ref.offset := h
      omega

/-- A write before the heap leaves every string. -/
theorem data_write_row {ref : VecStringRef} {m : ByteMemory} {heap start : Nat}
    {bytes : List UInt8} (h : start + bytes.length ≤ heap) :
    ref.data (m.write start bytes) heap = ref.data m heap := by
  unfold VecStringRef.data
  congr 2
  exact ByteMemory.read_write_apart (Or.inr (by omega))

theorem Untouched.of_within {ref : VecStringRef} {heapUsed len : Nat}
    (h : ref.Within 0 heapUsed) : Untouched ref (heapUsed, len) := by
  rcases h with h | h | h
  · exact Or.inl h
  · exact Or.inr (Or.inl h)
  · exact Or.inr (Or.inr (Or.inl h.2))

theorem Apart.symm {r r' : Nat × Nat} (h : Apart r r') : Apart r' r := Or.symm h

omit [DecidableEq Worker] in
/-- A worker outside the lock has nothing to reserve. -/
theorem heapKnows_of_not_locked {c : Config Worker} {pc : Pc} (h : ¬ pc.Locked) :
    HeapKnows c pc := by
  cases pc with
  | heapStore data heapUsed => exact absurd trivial h
  | _ => trivial

/-- The reference of a long string points into the heap. -/
theorem longString_data (data : LongString) (heapOffset : Nat) (m : ByteMemory) (heap : Nat) :
    VecStringRef.data ⟨data.val.length, heapOffset, stringPrefix data.val⟩ m heap =
      m.read (heap + heapOffset) data.val.length := by
  have hlong := data.property
  unfold VecStringRef.data
  rw [if_neg (show data.val.length ≠ 0 by omega), if_neg]
  simp only [VecStringRef.isInline, Bool.and_eq_true, decide_eq_true_eq]
  omega

section Heap
variable {c c' : Config Worker} {w : Worker} {pc : Pc}

/-- A move of one worker that reserves no range and stores no string, and at most
writes before the heap. -/
theorem HeapInv.update (h : HeapInv c) (hpc : c'.pc = Function.update c.pc w pc)
    (hused : c'.tdc.heapUsed = c.tdc.heapUsed)
    (hcapacity : c'.tdc.heapCapacity = c.tdc.heapCapacity) (hranges : c'.ranges = c.ranges)
    (hstrings : c'.strings = c.strings)
    (hdata : ∀ ref : VecStringRef,
      ref.data c'.tdc.rows c'.tdc.heap = ref.data c.tdc.rows c.tdc.heap)
    (hw : HeapKnows c' pc) (hfilling : pc.filling = none ∨ pc.filling = (c.pc w).filling) :
    HeapInv c' := by
  have hsame : ∀ v r, (c'.pc v).filling = some r → (c.pc v).filling = some r := by
    intro v r hv
    rw [hpc] at hv
    by_cases hvw : v = w
    · subst hvw
      rw [Function.update_self] at hv
      rcases hfilling with hnone | hkept
      · rw [hnone] at hv
        cases hv
      · rw [← hkept]
        exact hv
    · rw [Function.update_of_ne hvw] at hv
      exact hv
  refine ⟨fun v => ?_, ?_, ?_, ?_, ?_, ?_⟩
  · rw [hpc]
    by_cases hvw : v = w
    · subst hvw
      rw [Function.update_self]
      exact hw
    · rw [Function.update_of_ne hvw]
      have hknown := h.knows v
      unfold HeapKnows at hknown ⊢
      rw [hused, hcapacity]
      exact hknown
  · rw [hranges]
    exact h.ordered
  · rw [hranges, hused, hcapacity]
    exact h.inside
  · intro v r hv
    rw [hused, hstrings]
    exact h.filling v r (hsame v r hv)
  · intro v v' r r' hne hv hv'
    exact h.apart v v' r r' hne (hsame v r hv) (hsame v' r' hv')
  · intro s hs
    rw [hstrings] at hs
    rw [hdata, hused]
    exact h.strings s hs

/-- The used part of the heap moves past the range the holder of the lock needs. -/
theorem HeapInv.reserve (h : HeapInv c) (hlock : Exclusive c) {data : LongString} {heapUsed : Nat}
    (hat : c.pc w = .heapStore data heapUsed) :
    HeapInv ({ c with
      tdc := { c.tdc with heapUsed := heapUsed + data.val.length }
      ranges := c.ranges ++ [(heapUsed, data.val.length)] }.goto w
        (.heapUnlock data (some heapUsed))) := by
  have hin : (c.pc w).Locked := by
    rw [hat]
    trivial
  have hknown := h.knows w
  rw [hat] at hknown
  obtain ⟨rfl, hroom⟩ := hknown
  have hpc : ∀ v, v ≠ w → Function.update c.pc w (.heapUnlock data (some c.tdc.heapUsed)) v =
      c.pc v := fun v hv => Function.update_of_ne hv _ _
  have hnew : (Function.update c.pc w (.heapUnlock data (some c.tdc.heapUsed)) w).filling =
      some (c.tdc.heapUsed, data.val.length) := by
    rw [Function.update_self]
    rfl
  -- a range that was reserved before ends where the new one begins, or earlier
  have hbefore : ∀ v r r', v ≠ w → (c.pc v).filling = some r →
      some (c.tdc.heapUsed, data.val.length) = some r' → Apart r r' := by
    intro v r r' hv hr hr'
    obtain rfl := Option.some.inj hr'
    exact Or.inl (h.filling v r hr).1
  refine ⟨fun v => ?_, ?_, ?_, ?_, ?_, fun s hs => ?_⟩
  · show HeapKnows _ (Function.update c.pc w _ v)
    by_cases hvw : v = w
    · rw [hvw, Function.update_self]
      trivial
    · rw [hpc v hvw]
      exact heapKnows_of_not_locked (hlock.other hin hvw)
  · refine List.pairwise_append.mpr ⟨h.ordered, List.pairwise_singleton _ _, ?_⟩
    intro r hr r' hr'
    obtain rfl := List.mem_singleton.mp hr'
    exact (h.inside r hr).1
  · intro r hr
    rcases List.mem_append.mp hr with hr | hr
    · obtain ⟨hused, hcapacity⟩ := h.inside r hr
      exact ⟨Nat.le_add_right_of_le hused, hcapacity⟩
    · obtain rfl := List.mem_singleton.mp hr
      exact ⟨Nat.le_refl _, hroom⟩
  · show ∀ v r, (Function.update c.pc w _ v).filling = some r → _
    intro v r hr
    by_cases hvw : v = w
    · rw [hvw, hnew] at hr
      obtain rfl := Option.some.inj hr
      exact ⟨Nat.le_refl _, fun s hs => Untouched.of_within (h.strings s hs).2⟩
    · rw [hpc v hvw] at hr
      obtain ⟨hused, hstrings⟩ := h.filling v r hr
      exact ⟨Nat.le_add_right_of_le hused, hstrings⟩
  · show ∀ v v' r r', v ≠ v' → (Function.update c.pc w _ v).filling = some r →
      (Function.update c.pc w _ v').filling = some r' → Apart r r'
    intro v v' r r' hne hr hr'
    by_cases hv : v = w
    · have hv' : v' ≠ w := fun heq => hne (hv.trans heq.symm)
      rw [hv, hnew] at hr
      rw [hpc v' hv'] at hr'
      exact (hbefore v' r' r hv' hr' hr).symm
    · rw [hpc v hv] at hr
      by_cases hv' : v' = w
      · rw [hv', hnew] at hr'
        exact hbefore v r r' hv hr hr'
      · rw [hpc v' hv'] at hr'
        exact h.apart v v' r r' hne hr hr'
  · obtain ⟨hdata, hwithin⟩ := h.strings s hs
    exact ⟨hdata, hwithin.mono (Nat.le_refl _) (Nat.le_add_right _ _)⟩

/-- **The range is filled and the string is stored.** -/
theorem HeapInv.copied (h : HeapInv c) {data : LongString} {heapOffset : Nat}
    (hat : c.pc w = .copy data heapOffset) :
    HeapInv ({ c with
      tdc := { c.tdc with rows := c.tdc.rows.write (c.tdc.heap + heapOffset) data.val }
      strings := c.strings ++
        [StoredString.mk data.val ⟨data.val.length, heapOffset, stringPrefix data.val⟩] }.goto w
          .idle) := by
  have hmine : (c.pc w).filling = some (heapOffset, data.val.length) := by
    rw [hat]
    rfl
  obtain ⟨hused, huntouched⟩ := h.filling w _ hmine
  have hothers : ∀ v r, (Function.update c.pc w .idle v).filling = some r →
      v ≠ w ∧ (c.pc v).filling = some r := by
    intro v r hr
    by_cases hvw : v = w
    · rw [hvw, Function.update_self] at hr
      cases hr
    · rw [Function.update_of_ne hvw] at hr
      exact ⟨hvw, hr⟩
  refine ⟨fun v => ?_, h.ordered, h.inside, ?_, ?_, ?_⟩
  · show HeapKnows _ (Function.update c.pc w _ v)
    by_cases hvw : v = w
    · rw [hvw, Function.update_self]
      trivial
    · rw [Function.update_of_ne hvw]
      exact h.knows v
  · intro v r hr
    obtain ⟨hvw, hr⟩ := hothers v r hr
    obtain ⟨hle, hstrings⟩ := h.filling v r hr
    refine ⟨hle, fun s hs => ?_⟩
    rcases List.mem_append.mp hs with hs | hs
    · exact hstrings s hs
    · obtain rfl := List.mem_singleton.mp hs
      rcases h.apart w v _ _ (Ne.symm hvw) hmine hr with hapart | hapart
      · exact Or.inr (Or.inr (Or.inl hapart))
      · exact Or.inr (Or.inr (Or.inr hapart))
  · intro v v' r r' hne hr hr'
    exact h.apart v v' r r' hne (hothers v r hr).2 (hothers v' r' hr').2
  · intro s hs
    rcases List.mem_append.mp hs with hs | hs
    · obtain ⟨hdata, hwithin⟩ := h.strings s hs
      refine ⟨?_, hwithin⟩
      rw [← hdata]
      exact data_write_heap (huntouched s hs)
    · obtain rfl := List.mem_singleton.mp hs
      refine ⟨?_, Or.inr (Or.inr ⟨Nat.zero_le _, hused⟩)⟩
      exact (longString_data data heapOffset _ _).trans ByteMemory.read_write

omit [DecidableEq Worker] in
/-- A string is stored in its reference. -/
theorem HeapInv.inlined (h : HeapInv c) {s : StoredString}
    (hs : s.ref.len = 0 ∨ s.ref.isInline = true)
    (hdata : s.ref.data c.tdc.rows c.tdc.heap = s.data) :
    HeapInv { c with strings := c.strings ++ [s] } := by
  refine ⟨h.knows, h.ordered, h.inside, fun v r hr => ?_, h.apart, fun s' hs' => ?_⟩
  · obtain ⟨hused, hstrings⟩ := h.filling v r hr
    refine ⟨hused, fun s' hs' => ?_⟩
    rcases List.mem_append.mp hs' with hs' | hs'
    · exact hstrings s' hs'
    · obtain rfl := List.mem_singleton.mp hs'
      exact hs.imp id Or.inl
  · rcases List.mem_append.mp hs' with hs' | hs'
    · exact h.strings s' hs'
    · obtain rfl := List.mem_singleton.mp hs'
      exact ⟨hdata, hs.imp id Or.inl⟩

end Heap

/-! ## Steps and runs -/

/-- **The invariant** of workers that append. -/
structure Inv (c : Config Worker) : Prop where
  lock : Exclusive c
  rows : RowInv c
  heap : HeapInv c

section Steps
variable {c : Config Worker} {w : Worker} {pc : Pc}

/-- A move that touches nothing shared but, perhaps, the lock. -/
theorem Inv.moved (h : Inv c) {mutex : Option Worker}
    (hmutex : c.mutex = some w ∨ c.mutex = none ∨ mutex = c.mutex)
    (hin : pc.Locked → mutex = some w) (hrow : RowKnows c pc) (hheap : HeapKnows c pc)
    (hfilling : pc.filling = none ∨ pc.filling = (c.pc w).filling) :
    Inv { c with mutex := mutex, pc := Function.update c.pc w pc } where
  lock := h.lock.update rfl hmutex hin
  rows := h.rows.update rfl rfl rfl rfl hrow
  heap := h.heap.update rfl rfl rfl rfl rfl (fun _ => rfl) hheap hfilling

theorem Inv.acquire (h : Inv c) (hrow : RowKnows c pc) (hheap : HeapKnows c pc)
    (hfilling : pc.filling = none) : Inv (c.acquire w pc) := by
  unfold Config.acquire
  split
  · rename_i hfree
    exact h.moved (Or.inr (Or.inl hfree)) (fun _ => rfl) hrow hheap (Or.inl hfilling)
  · exact h

theorem Inv.release (h : Inv c) (hheld : (c.pc w).Locked) (hout : ¬ pc.Locked)
    (hfilling : pc.filling = none ∨ pc.filling = (c.pc w).filling) : Inv (c.release w pc) :=
  h.moved (Or.inl (h.lock w hheld)) (fun hin => absurd hin hout) (rowKnows_of_not_locked hout)
    (heapKnows_of_not_locked hout) hfilling

omit [DecidableEq Worker] in
theorem Inv.inlined (h : Inv c) {s : StoredString} (hs : s.ref.len = 0 ∨ s.ref.isInline = true)
    (hdata : s.ref.data c.tdc.rows c.tdc.heap = s.data) :
    Inv { c with strings := c.strings ++ [s] } where
  lock := h.lock
  rows := ⟨h.rows.knows, h.rows.nodup, h.rows.lt⟩
  heap := h.heap.inlined hs hdata

omit [DecidableEq Worker] in
/-- The bytes of a row that was handed out lie before the heap. -/
theorem RowInv.before_heap (h : RowInv c) {rowIdx stop : Nat} (hrow : rowIdx ∈ c.rows)
    (hstop : stop ≤ c.tdc.rowWidth) : c.tdc.getRow rowIdx + stop ≤ c.tdc.heap := by
  have hlt := (h.lt rowIdx hrow).1
  have hnext : (rowIdx + 1) * c.tdc.rowWidth ≤ c.tdc.rowCapacity * c.tdc.rowWidth :=
    Nat.mul_le_mul_right _ hlt
  rw [Nat.succ_mul] at hnext
  show rowIdx * c.tdc.rowWidth + stop ≤ c.tdc.rowCapacity * c.tdc.rowWidth
  omega

theorem Inv.writeRow (h : Inv c) (w : Worker) (rowIdx offset : Nat) (bytes : List UInt8) :
    Inv (c.writeRow rowIdx offset bytes) := by
  unfold Config.writeRow
  split
  · rename_i hok
    have hbefore := h.rows.before_heap hok.1 hok.2
    refine ⟨h.lock, ⟨h.rows.knows, h.rows.nodup, h.rows.lt⟩, ?_⟩
    refine h.heap.update (Function.update_eq_self w c.pc).symm rfl rfl rfl rfl (fun ref => ?_)
      (h.heap.knows w) (Or.inr rfl)
    refine data_write_row ?_
    show c.tdc.getRow rowIdx + offset + bytes.length ≤ c.tdc.heap
    omega
  · exact h

theorem Inv.storeStringBytes (h : Inv c) (w : Worker) (data : List UInt8) :
    Inv (c.storeStringBytes w data) := by
  unfold Config.storeStringBytes
  by_cases h0 : data.length = 0
  · rw [if_pos h0]
    refine h.inlined (Or.inl h0) ?_
    unfold VecStringRef.data
    rw [if_pos h0]
    exact (List.length_eq_zero_iff.mp h0).symm
  by_cases h8 : data.length ≤ 8
  · rw [if_neg h0, dif_pos h8]
    have hinline : VecStringRef.isInline
        ⟨data.length, VecStringRef.inlineOffset, stringPrefix data⟩ = true := by
      simp only [VecStringRef.isInline, Bool.and_eq_true, decide_eq_true_eq]
      exact ⟨⟨by omega, h8⟩, trivial⟩
    refine h.inlined (Or.inr hinline) ?_
    unfold VecStringRef.data
    rw [if_neg h0, if_pos hinline]
    exact take_stringPrefix h8
  · rw [if_neg h0, dif_neg h8]
    exact h.moved (Or.inr (Or.inr rfl)) False.elim trivial trivial (Or.inl rfl)

theorem Inv.call (h : Inv c) (w : Worker) (action : Action) : Inv (c.call w action) := by
  cases action with
  | appendRow => exact h.moved (Or.inr (Or.inr rfl)) False.elim trivial trivial (Or.inl rfl)
  | writeRow rowIdx offset bytes => exact h.writeRow w rowIdx offset bytes
  | storeStringBytes source =>
    cases source with
    | null len => exact h
    | bytes data => exact h.storeStringBytes w data

/-- **One step keeps the invariant.** -/
theorem Inv.step (h : Inv c) (label : Worker × Action) : Inv (step c label) := by
  obtain ⟨w, action⟩ := label
  show Inv (c.advance w action (c.pc w))
  have hheld : (c.pc w).Locked → c.mutex = some w := h.lock w
  cases hat : c.pc w with
  | idle => exact h.call w action
  | rowLock => exact h.acquire trivial trivial rfl
  | rowLoad =>
    rw [hat] at hheld
    have hmine := hheld trivial
    show Inv (c.loadRowCount w)
    unfold Config.loadRowCount
    split
    · exact h.moved (Or.inl hmine) (fun _ => hmine) trivial trivial (Or.inl rfl)
    · rename_i hroom
      exact h.moved (Or.inl hmine) (fun _ => hmine) ⟨rfl, Nat.lt_of_not_le hroom⟩ trivial
        (Or.inl rfl)
  | rowStore cur =>
    rw [hat] at hheld
    have hmine := hheld trivial
    refine ⟨?_, h.rows.reserve h.lock hat, ?_⟩
    · exact h.lock.update rfl (Or.inl hmine) fun _ => hmine
    · exact h.heap.update rfl rfl rfl rfl rfl (fun _ => rfl) trivial (Or.inl rfl)
  | rowUnlock answer =>
    rw [hat] at hheld
    have hmine := hheld trivial
    refine ⟨?_, h.rows.handOut h.lock hat, ?_⟩
    · exact h.lock.update rfl (Or.inl hmine) False.elim
    · exact h.heap.update rfl rfl rfl rfl rfl (fun _ => rfl) trivial (Or.inl rfl)
  | heapLock data => exact h.acquire trivial trivial rfl
  | heapLoad data =>
    rw [hat] at hheld
    have hmine := hheld trivial
    show Inv (c.loadHeapUsed w data)
    unfold Config.loadHeapUsed
    split
    · exact h.moved (Or.inl hmine) (fun _ => hmine) trivial trivial (Or.inl rfl)
    · rename_i hroom
      exact h.moved (Or.inl hmine) (fun _ => hmine) trivial ⟨rfl, by omega⟩ (Or.inl rfl)
  | heapStore data heapUsed =>
    rw [hat] at hheld
    have hmine := hheld trivial
    refine ⟨?_, ?_, h.heap.reserve h.lock hat⟩
    · exact h.lock.update rfl (Or.inl hmine) fun _ => hmine
    · exact h.rows.update rfl rfl rfl rfl trivial
  | heapUnlock data answer =>
    have hin : (c.pc w).Locked := by
      rw [hat]
      trivial
    cases answer with
    | none => exact h.release hin id (Or.inl rfl)
    | some heapOffset => exact h.release hin id (Or.inr (by rw [hat]; rfl))
  | copy data heapOffset =>
    refine ⟨?_, ?_, h.heap.copied hat⟩
    · exact h.lock.update rfl (Or.inr (Or.inr rfl)) False.elim
    · exact h.rows.update rfl rfl rfl rfl trivial

/-- **A run keeps the invariant.** -/
theorem Inv.foldl (h : Inv c) (schedule : List (Worker × Action)) :
    Inv (schedule.foldl ConcurrentAppends.step c) := by
  induction schedule generalizing c with
  | nil => exact h
  | cons label schedule ih => exact ih (h.step label)

end Steps

omit [DecidableEq Worker] in
theorem Inv.start (tdc : TupleDataCollection) : Inv (start tdc : Config Worker) where
  lock := fun _ h => h.elim
  rows := ⟨fun _ => trivial, List.nodup_nil, (fun _ h => nomatch h)⟩
  heap := ⟨fun _ => trivial, List.Pairwise.nil, (fun _ h => nomatch h), (fun _ _ h => nomatch h),
    (fun _ _ _ _ _ h => nomatch h), (fun _ h => nomatch h)⟩

/-! ## What stays over a run -/

/-- The places of a collection do not change. -/
structure SamePlaces (tdc tdc' : TupleDataCollection) : Prop where
  rowWidth : tdc'.rowWidth = tdc.rowWidth
  rowCapacity : tdc'.rowCapacity = tdc.rowCapacity
  heapCapacity : tdc'.heapCapacity = tdc.heapCapacity

/-- What was stored stays stored. -/
structure Grows (c c' : Config Worker) : Prop where
  places : SamePlaces c.tdc c'.tdc
  strings : c.strings ⊆ c'.strings

omit [DecidableEq Worker] in
theorem Grows.refl (c : Config Worker) : Grows c c := ⟨⟨rfl, rfl, rfl⟩, List.Subset.refl _⟩

omit [DecidableEq Worker] in
theorem Grows.trans {c c' c'' : Config Worker} (h : Grows c c') (h' : Grows c' c'') : Grows c c'' :=
  ⟨⟨h'.places.rowWidth.trans h.places.rowWidth, h'.places.rowCapacity.trans h.places.rowCapacity,
    h'.places.heapCapacity.trans h.places.heapCapacity⟩, List.Subset.trans h.strings h'.strings⟩

theorem grows_call (c : Config Worker) (w : Worker) (action : Action) :
    Grows c (c.call w action) := by
  cases action with
  | appendRow => exact ⟨⟨rfl, rfl, rfl⟩, List.Subset.refl _⟩
  | writeRow rowIdx offset bytes =>
    show Grows c (c.writeRow rowIdx offset bytes)
    unfold Config.writeRow
    split
    · exact ⟨⟨rfl, rfl, rfl⟩, List.Subset.refl _⟩
    · exact Grows.refl c
  | storeStringBytes source =>
    cases source with
    | null len => exact Grows.refl c
    | bytes data =>
      show Grows c (c.storeStringBytes w data)
      unfold Config.storeStringBytes
      split
      · exact ⟨⟨rfl, rfl, rfl⟩, List.subset_append_left _ _⟩
      split
      · exact ⟨⟨rfl, rfl, rfl⟩, List.subset_append_left _ _⟩
      · exact ⟨⟨rfl, rfl, rfl⟩, List.Subset.refl _⟩

theorem grows_step (c : Config Worker) (label : Worker × Action) : Grows c (step c label) := by
  obtain ⟨w, action⟩ := label
  have hacquire : ∀ pc, Grows c (c.acquire w pc) := by
    intro pc
    unfold Config.acquire
    split
    · exact ⟨⟨rfl, rfl, rfl⟩, List.Subset.refl _⟩
    · exact Grows.refl c
  show Grows c (c.advance w action (c.pc w))
  cases hat : c.pc w with
  | idle => exact grows_call c w action
  | rowLock => exact hacquire _
  | heapLock data => exact hacquire _
  | rowLoad =>
    show Grows c (c.loadRowCount w)
    unfold Config.loadRowCount
    split <;> exact ⟨⟨rfl, rfl, rfl⟩, List.Subset.refl _⟩
  | heapLoad data =>
    show Grows c (c.loadHeapUsed w data)
    unfold Config.loadHeapUsed
    split <;> exact ⟨⟨rfl, rfl, rfl⟩, List.Subset.refl _⟩
  | rowStore cur => exact ⟨⟨rfl, rfl, rfl⟩, List.Subset.refl _⟩
  | rowUnlock answer => exact ⟨⟨rfl, rfl, rfl⟩, List.Subset.refl _⟩
  | heapStore data heapUsed => exact ⟨⟨rfl, rfl, rfl⟩, List.Subset.refl _⟩
  | heapUnlock data answer =>
    cases answer with
    | none => exact ⟨⟨rfl, rfl, rfl⟩, List.Subset.refl _⟩
    | some heapOffset => exact ⟨⟨rfl, rfl, rfl⟩, List.Subset.refl _⟩
  | copy data heapOffset => exact ⟨⟨rfl, rfl, rfl⟩, List.subset_append_left _ _⟩

theorem grows_foldl (c : Config Worker) (schedule : List (Worker × Action)) :
    Grows c (schedule.foldl step c) := by
  induction schedule generalizing c with
  | nil => exact Grows.refl c
  | cons label schedule ih => exact (grows_step c label).trans (ih _)

/-- **Concurrent appends keep out of each other's way.** At any moment of any run the
rows handed out are distinct and below the capacity, the heap ranges handed out are
apart and inside the heap, and a string stored at that moment reads back its bytes at
every later one. -/
theorem concurrent_appends (tdc : TupleDataCollection) (before after : List (Worker × Action)) :
    HandsOut tdc (run tdc before) ∧
    ∀ s ∈ (run tdc before).strings,
      s.ref.data (run tdc (before ++ after)).tdc.rows (run tdc (before ++ after)).tdc.heap =
        s.data := by
  have hstart : Inv (start tdc : Config Worker) := Inv.start tdc
  have hplaces := (grows_foldl (start tdc) before).places
  have hinv := hstart.foldl before
  constructor
  · refine ⟨hinv.rows.nodup, fun row hrow => ?_, hinv.heap.ordered.imp Or.inl, fun r hr => ?_⟩
    · rw [← show (run tdc before).tdc.rowCapacity = tdc.rowCapacity from hplaces.rowCapacity]
      exact (hinv.rows.lt row hrow).1
    · rw [← show (run tdc before).tdc.heapCapacity = tdc.heapCapacity from hplaces.heapCapacity]
      exact (hinv.heap.inside r hr).2
  · intro s hs
    have hlater := (hstart.foldl (before ++ after)).heap.strings s
    refine (hlater ?_).1
    rw [List.foldl_append]
    exact (grows_foldl _ after).strings hs

/-! ## A call that is not interrupted

Alone, a call does what the row store does at once. -/

section Alone
variable {c : Config Worker} {w : Worker} {tdc' : TupleDataCollection}

theorem step_at {action : Action} {pc : Pc} (h : c.pc w = pc) :
    step c (w, action) = c.advance w action pc := by
  show c.advance w action (c.pc w) = _
  rw [h]

@[simp] theorem goto_pc (pc : Pc) : (c.goto w pc).pc w = pc := Function.update_self _ _ _

theorem acquire_free (hfree : c.mutex = none) (pc pc' : Pc) :
    (c.goto w pc).acquire w pc' = { c with mutex := some w }.goto w pc' := by
  rw [Config.acquire, if_pos (show (c.goto w pc).mutex = none from hfree)]
  simp only [Config.goto, Function.update_idem]

theorem loadRowCount_room (h : ¬ c.tdc.rowCapacity ≤ c.tdc.rowCount) :
    c.loadRowCount w = c.goto w (.rowStore c.tdc.rowCount) := if_neg h

theorem loadHeapUsed_room {data : LongString} (h : ¬ (c.tdc.heapCapacity < c.tdc.heapUsed ∨
    c.tdc.heapCapacity - c.tdc.heapUsed < data.val.length)) :
    c.loadHeapUsed w data = c.goto w (.heapStore data c.tdc.heapUsed) := if_neg h

/-- **`AppendRow` alone** is the append of the row store. -/
theorem append_row_alone (hidle : c.pc w = .idle) (hfree : c.mutex = none) {rowIdx : Nat}
    (h : c.tdc.appendRow = some (tdc', rowIdx)) :
    (List.replicate 5 (w, Action.appendRow)).foldl step c =
      { c with tdc := tdc', rows := c.rows ++ [rowIdx] } := by
  unfold TupleDataCollection.appendRow at h
  split at h
  · cases h
  rename_i hroom
  obtain ⟨rfl, rfl⟩ := Prod.mk.inj (Option.some.inj h)
  show step (step (step (step (step c _) _) _) _) _ = _
  rw [step_at hidle]
  show step (step (step (step (c.goto w .rowLock) _) _) _) _ = _
  rw [step_at (goto_pc _)]
  show step (step (step ((c.goto w .rowLock).acquire w .rowLoad) _) _) _ = _
  rw [acquire_free hfree, step_at (goto_pc _)]
  show step (step (Config.loadRowCount _ w) _) _ = _
  have hload : Config.loadRowCount ({ c with mutex := some w }.goto w .rowLoad) w =
      ({ c with mutex := some w }.goto w .rowLoad).goto w (.rowStore c.tdc.rowCount) :=
    loadRowCount_room hroom
  rw [hload, step_at (goto_pc _)]
  show step (Config.goto _ w (.rowUnlock _)) _ = _
  rw [step_at (goto_pc _)]
  simp only [Config.advance, Config.release, Config.goto, Function.update_idem, Option.toList_some]
  rw [← hidle, Function.update_eq_self, ← hfree]

/-- **`StoreStringBytes` alone** is the store of the row store. -/
theorem store_string_alone (hidle : c.pc w = .idle) (hfree : c.mutex = none) (data : LongString)
    {ref : VecStringRef} (h : c.tdc.storeStringBytes data.val = some (tdc', ref)) :
    (List.replicate 6 (w, Action.storeStringBytes (.bytes data.val))).foldl step c =
      { c with
        tdc := tdc'
        ranges := c.ranges ++ [(c.tdc.heapUsed, data.val.length)]
        strings := c.strings ++ [⟨data.val, ref⟩] } := by
  have hlong := data.property
  unfold TupleDataCollection.storeStringBytes at h
  dsimp only at h
  rw [if_neg (by omega), if_neg (by omega)] at h
  split at h
  · cases h
  rename_i hroom
  obtain ⟨rfl, rfl⟩ := Prod.mk.inj (Option.some.inj h)
  show step (step (step (step (step (step c _) _) _) _) _) _ = _
  rw [step_at hidle]
  show step (step (step (step (step (c.storeStringBytes w data.val) _) _) _) _) _ = _
  rw [Config.storeStringBytes, if_neg (by omega), dif_neg (by omega), step_at (goto_pc _)]
  show step (step (step (step ((c.goto w (.heapLock data)).acquire w _) _) _) _) _ = _
  rw [acquire_free hfree, step_at (goto_pc _)]
  show step (step (step (Config.loadHeapUsed _ w data) _) _) _ = _
  have hload : Config.loadHeapUsed ({ c with mutex := some w }.goto w (.heapLoad data)) w data =
      ({ c with mutex := some w }.goto w (.heapLoad data)).goto w
        (.heapStore data c.tdc.heapUsed) := loadHeapUsed_room hroom
  rw [hload, step_at (goto_pc _)]
  show step (step (Config.goto _ w (.heapUnlock data _)) _) _ = _
  rw [step_at (goto_pc _)]
  show step (Config.release _ w (.copy data _)) _ = _
  rw [Config.release, step_at (goto_pc _)]
  simp only [Config.advance, Config.goto, Function.update_idem]
  rw [← hidle, Function.update_eq_self, ← hfree]
  rfl

end Alone
end ConcurrentAppends
end PgYaap
