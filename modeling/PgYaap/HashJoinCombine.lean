import Mathlib
import PgYaap.TransitionSystem

/-! # Combining the build side of a hash join

Every worker has sunk its part of the build side into tables of its own. In the
combine event one worker, the one that wins the compare-and-swap on
`combine_prepare_state`, assigns each worker a range of global row slots and
allocates the bucket heads; the others wait. Then every worker copies its rows
into its range, computes buckets and salts, and links its rows into the bucket
chains: one atomic exchange of the bucket head, followed by a plain store of the
old head as the row's link.

Each access of a worker to the shared arrays is one step. The rows are of
arbitrary types, and `hash` is the hash of a key row. Memory exhaustion ends
the query and is not a step. -/
namespace PgYaap
namespace HashJoinCombine

/-- `HASH_JOIN_INVALID_ROW`, the end of a bucket chain. -/
def invalidRow : UInt32 := 0xFFFFFFFF

/-- How the payload columns of the build side are kept: inside the key rows, in
a global table of their own, or in the local tables of the workers. -/
inductive PayloadMode
  | useKeys
  | ownRows
  | sharedLocal
deriving DecidableEq

/-- One worker's build tables. `row_count` is a 32-bit counter. -/
structure LocalBuild (Key Payload : Type) where
  keys : List Key
  rows : List Payload
  sameLength : rows.length = keys.length
  fits : keys.length < 2 ^ 32

/-- The row count of a local table. -/
def LocalBuild.rowCount {Key Payload : Type} (b : LocalBuild Key Payload) : UInt32 :=
  UInt32.ofNat b.keys.length

/-- The part of a registry entry that the combine steps read. -/
structure RegistryEntry where
  rowCount : UInt32
  globalRowOffset : UInt32

/-- The shared payload during the combine event. A slot of an array that was
never written holds `none`. -/
structure SharedPayload (Key Payload : Type) where
  combinePrepareState : UInt32
  registry : Nat → RegistryEntry
  hashTableCapacity : UInt32
  hashTable : UInt32 → UInt32
  hashBuckets : UInt32 → UInt32
  hashSalts : UInt32 → UInt16
  hashLinks : UInt32 → UInt32
  buildKeys : UInt32 → Option Key
  buildRows : UInt32 → Option Payload
  buildRowSlots : UInt32 → UInt32
  buildRowLocalIdxs : UInt32 → UInt32

/-- The loop of `ComputeHashTableCapacity`. In 32 bits the capacity is zero
after 32 doublings, and the loop then never ends. -/
def computeHashTableCapacityLoop (rowCount : UInt32) : Nat → UInt32 → Option UInt32
  | 0, _ => none
  | fuel + 1, hashCapacity =>
    if hashCapacity < rowCount * 2 then
      computeHashTableCapacityLoop rowCount fuel (hashCapacity <<< 1)
    else some hashCapacity

/-- `ComputeHashTableCapacity`; `none` stands for a loop that does not end. -/
def computeHashTableCapacity (rowCount : UInt32) : Option UInt32 :=
  computeHashTableCapacityLoop rowCount 33 1

/-- The bucket of a hash: `static_cast<uint32_t>(hash) & (hash_capacity - 1u)`. -/
def hashBucket (hashCapacity : UInt32) (hash : UInt64) : UInt32 :=
  hash.toUInt32 &&& (hashCapacity - 1)

/-- `HashJoinSalt`: the upper sixteen bits of the hash. -/
def hashJoinSalt (hash : UInt64) : UInt16 := (hash >>> 48).toUInt16

/-- The check of `PrecomputeJoinHashes` on the capacity. -/
def validCapacity (hashCapacity : UInt32) : Prop :=
  hashCapacity ≠ 0 ∧ hashCapacity &&& (hashCapacity - 1) = 0

instance (hashCapacity : UInt32) : Decidable (validCapacity hashCapacity) :=
  inferInstanceAs (Decidable (_ ∧ _))

/-- Where a worker stands. The first block is `PrepareHashJoinCombine`; `ranging`
carries the loop variable and the 64-bit running total. `linking` is about to
exchange the bucket head for a row, `storing` holds the old head it got and is
about to store it as the row's link. `failed` is an `elog(ERROR)`. -/
inductive Pc
  | start
  | ranging (slot total : Nat)
  | allocating (total : Nat)
  | publishing
  | waiting
  | copying (rowIdx : Nat)
  | hashing (rowIdx : Nat)
  | linking (rowIdx : Nat)
  | storing (rowIdx : Nat) (oldHead : UInt32)
  | copyingRows (rowIdx : Nat)
  | mapping (rowIdx : Nat)
  | done
  | failed
deriving DecidableEq

/-- The fixed data of one combine event over `n` workers. -/
structure Build (n : Nat) (Key Payload : Type) where
  mode : PayloadMode
  locals : Fin n → LocalBuild Key Payload
  hash : Key → UInt64

structure Config (n : Nat) (Key Payload : Type) where
  shared : SharedPayload Key Payload
  pc : Fin n → Pc

section Steps
variable {n : Nat} {Key Payload : Type}

/-- The global slot of a worker's row, in 32-bit arithmetic. -/
def globalRowIdx (s : SharedPayload Key Payload) (w : Fin n) (rowIdx : Nat) : UInt32 :=
  (s.registry w).globalRowOffset + UInt32.ofNat rowIdx

/-- Whether the loop over the rows of a worker's registry entry goes on. -/
def inRange (s : SharedPayload Key Payload) (w : Fin n) (rowIdx : Nat) : Prop :=
  rowIdx < (s.registry w).rowCount.toNat

instance (s : SharedPayload Key Payload) (w : Fin n) (rowIdx : Nat) :
    Decidable (inRange s w rowIdx) := inferInstanceAs (Decidable (_ < _))

def Config.goto (c : Config n Key Payload) (w : Fin n) (pc : Pc) : Config n Key Payload :=
  { c with pc := Function.update c.pc w pc }

/-- Move a worker and change the shared payload. -/
def Config.act (c : Config n Key Payload) (w : Fin n) (pc : Pc)
    (shared : SharedPayload Key Payload) : Config n Key Payload :=
  { shared := shared, pc := Function.update c.pc w pc }

/-- What follows the linking loop in each payload mode. -/
def afterLinking : PayloadMode → Pc
  | .useKeys => .done
  | .ownRows => .copyingRows 0
  | .sharedLocal => .mapping 0

/-- The next step of worker `w`. -/
def Config.run (b : Build n Key Payload) (c : Config n Key Payload) (w : Fin n) :
    Config n Key Payload :=
  let s := c.shared
  match c.pc w with
  | .start =>
    if s.combinePrepareState = 0 then
      c.act w (.ranging 0 0) { s with combinePrepareState := 1 }
    else c.goto w .waiting
  | .ranging slot total =>
    if h : slot < n then
      let rowCount := (b.locals ⟨slot, h⟩).rowCount
      c.act w (.ranging (slot + 1) (total + rowCount.toNat))
        { s with registry := Function.update s.registry slot ⟨rowCount, UInt32.ofNat total⟩ }
    else c.goto w (.allocating total)
  | .allocating total =>
    if total > 0xFFFFFFFF then c.goto w .failed
    else if total = 0 then c.act w .publishing { s with hashTableCapacity := 0 }
    else
      match computeHashTableCapacity (UInt32.ofNat total) with
      | none => c
      | some capacity =>
        c.act w .publishing
          { s with hashTableCapacity := capacity, hashTable := fun _ => invalidRow }
  | .publishing => c.act w (.copying 0) { s with combinePrepareState := 2 }
  | .waiting => if s.combinePrepareState = 2 then c.goto w (.copying 0) else c
  | .copying i =>
    if i < (b.locals w).keys.length then
      c.act w (.copying (i + 1))
        { s with buildKeys :=
            Function.update s.buildKeys (globalRowIdx s w i) (b.locals w).keys[i]? }
    else c.goto w (.hashing 0)
  | .hashing i =>
    if inRange s w i then
      match (b.locals w).keys[i]? with
      | none => c.goto w .failed
      | some key =>
        if validCapacity s.hashTableCapacity then
          let g := globalRowIdx s w i
          c.act w (.hashing (i + 1))
            { s with
              hashBuckets :=
                Function.update s.hashBuckets g (hashBucket s.hashTableCapacity (b.hash key))
              hashSalts := Function.update s.hashSalts g (hashJoinSalt (b.hash key)) }
        else c.goto w .failed
    else c.goto w (.linking 0)
  | .linking i =>
    if inRange s w i then
      let bucket := s.hashBuckets (globalRowIdx s w i)
      c.act w (.storing i (s.hashTable bucket))
        { s with hashTable := Function.update s.hashTable bucket (globalRowIdx s w i) }
    else c.goto w (afterLinking b.mode)
  | .storing i oldHead =>
    c.act w (.linking (i + 1))
      { s with hashLinks := Function.update s.hashLinks (globalRowIdx s w i) oldHead }
  | .copyingRows i =>
    if i < (b.locals w).rows.length then
      c.act w (.copyingRows (i + 1))
        { s with buildRows :=
            Function.update s.buildRows (globalRowIdx s w i) (b.locals w).rows[i]? }
    else c.goto w .done
  | .mapping i =>
    if inRange s w i then
      let g := globalRowIdx s w i
      c.act w (.mapping (i + 1))
        { s with
          buildRowSlots := Function.update s.buildRowSlots g (UInt32.ofNat w)
          buildRowLocalIdxs := Function.update s.buildRowLocalIdxs g (UInt32.ofNat i) }
    else c.goto w .done
  | .done => c
  | .failed => c

/-- Before the event: `combine_prepare_state` and the capacity are zero, nobody
has started. What the arrays hold before they are written is arbitrary. -/
def IsInitial (c : Config n Key Payload) : Prop :=
  c.shared.combinePrepareState = 0 ∧ c.shared.hashTableCapacity = 0 ∧ ∀ w, c.pc w = .start

/-- All interleavings of the combine tasks of `n` workers. -/
def system (b : Build n Key Payload) : TransitionSystem (Config n Key Payload) (Fin n) :=
  .ofFunction IsInitial (Config.run b)

end Steps
end HashJoinCombine
end PgYaap
