import PgYaap.RepeatedProbes

/-! # The linear-probe hash table and the Bloom filter

Both tables are sized for `n` entries when they are initialised. The hash table keeps the payloads
in the order of the inserts and the number of each at a slot of its key, found by probing from the
hash on; the Bloom filter sets a bit of a few hashes of every key. An access outside of what the
init functions allocated has no result here, and neither has a probe that does not end. -/
namespace PgYaap
namespace LinearProbeTables

open RepeatedProbes

/-- A store to an array; `none` outside of it. -/
def store {α : Type} (xs : Array α) (i : Nat) (a : α) : Option (Array α) :=
  if i < xs.size then some (xs.setIfInBounds i a) else none

/-- The items of a width that lie inside a zeroed allocation; `none` where the allocator refuses
the request. -/
def palloc0 {α : Type} (grants : Nat → Bool) (width bytes : Nat) (zero : α) : Option (Array α) :=
  if grants bytes then some (Array.replicate (bytes / width) zero) else none

/-- The finalizer of a key. -/
def volvecHashKey (key : UInt64) : UInt32 :=
  let key := key ^^^ (key >>> 33)
  let key := key * 0xff51afd7ed558ccd
  let key := key ^^^ (key >>> 33)
  let key := key * 0xc4ceb9fe1a85ec53
  let key := key ^^^ (key >>> 33)
  key.toUInt32

/-! ## The Bloom filter -/

structure VecBloomFilter where
  bits : Array UInt64
  bitCount : UInt32
  hashFuncs : UInt32
  seeds : Array UInt64

def bloomFilterBitCount (n : UInt32) : UInt32 := max (n * 10) 64

/-- `0.693 * bitCount / n`, between one and four. The quotient by no entries, an infinity, is
converted to zero, as the compilers of the platform do. -/
def bloomFilterHashFuncs (bitCount n : UInt32) : UInt32 :=
  max 1 (min 4 (UInt32.ofNat (bitCount.toNat * 693 / (n.toNat * 1000))))

def bloomSeeds : Array UInt64 :=
  #[0x9e3779b97f4a7c15, 0x5a5e3a6be5e7c9d3, 0x1b1c2d3e4f5a6b7c, 0xd7e8f9a0b1c2d3e4]

/-- Words are kept as far as they lie inside the bytes that were asked for. -/
def volvecBloomInit (grants : Nat → Bool) (n : UInt32) : Option VecBloomFilter := do
  let bitCount := bloomFilterBitCount n
  let hashFuncs := bloomFilterHashFuncs bitCount n
  let byteCount := (bitCount + 7) / 8
  let bits ← palloc0 grants 8 byteCount.toNat 0
  return {
    bits := bits
    bitCount := bitCount
    hashFuncs := hashFuncs
    seeds := bloomSeeds }

/-- The bit of a key under one hash function. -/
def bitOf (bitCount : UInt32) (key seed : UInt64) : UInt32 :=
  let hash := (volvecHashKey (key ^^^ seed)).toUInt64
  (hash % bitCount.toUInt64).toUInt32

/-- The place of a bit in its word. -/
def maskOf (bit : UInt32) : UInt64 := 1 <<< (bit % 64).toUInt64

/-- One turn of the loop of an insert. -/
def bloomInsertOne (key : UInt64) (bloom : VecBloomFilter) (h : Nat) : Option VecBloomFilter := do
  let seed ← bloom.seeds[h]?
  let bit := bitOf bloom.bitCount key seed
  let word ← bloom.bits[(bit / 64).toNat]?
  let bits ← store bloom.bits (bit / 64).toNat (word ||| maskOf bit)
  return { bloom with bits := bits }

def volvecBloomInsert (bloom : VecBloomFilter) (key : UInt64) : Option VecBloomFilter :=
  (List.range bloom.hashFuncs.toNat).foldlM (bloomInsertOne key) bloom

/-- The loop of a look-up over the hash functions that are left. -/
def mightContainLoop (bloom : VecBloomFilter) (key : UInt64) : List Nat → Option Bool
  | [] => some true
  | h :: hs => do
    let seed ← bloom.seeds[h]?
    let bit := bitOf bloom.bitCount key seed
    let word ← bloom.bits[(bit / 64).toNat]?
    if word &&& maskOf bit = 0 then some false else mightContainLoop bloom key hs

def volvecBloomMightContain (bloom : VecBloomFilter) (key : UInt64) : Option Bool :=
  mightContainLoop bloom key (List.range bloom.hashFuncs.toNat)

/-! ## The hash table -/

structure VecLinearProbeHT where
  keys : Array UInt64
  payloads : Array UInt64
  values : Array UInt32
  states : Array UInt8
  capacity : UInt32
  count : UInt32

/-- The slots that `n` entries ask for. The quotient by the load factor, three quarters, is exact
in its whole part. -/
def neededSlots (n : UInt32) : UInt32 := UInt32.ofNat (n.toNat * 4 / 3) + 1

def capacityLoop (needed : UInt32) : Nat → UInt32 → Option UInt32
  | 0, _ => none
  | fuel + 1, cap => if cap < needed then capacityLoop needed fuel (cap <<< 1) else some cap

/-- The smallest power of two that holds the needed slots. -/
def volvecHtCapacity (fuel : Nat) (n : UInt32) : Option UInt32 :=
  capacityLoop (neededSlots n) fuel 1

def volvecHtInit (grants : Nat → Bool) (fuel : Nat) (n : UInt32) : Option VecLinearProbeHT := do
  let capacity ← volvecHtCapacity fuel n
  let keys ← palloc0 grants 8 (capacity.toNat * 8) 0
  let values ← palloc0 grants 4 (capacity.toNat * 4) 0
  let states ← palloc0 grants 1 capacity.toNat 0
  let payloads ← palloc0 grants 8 (n.toNat * 8) 0
  return {
    keys := keys, payloads := payloads, values := values, states := states, capacity := capacity,
    count := 0 }

/-- The next slot, round the end of the table. -/
def VecLinearProbeHT.nextPos (ht : VecLinearProbeHT) (pos : UInt32) : UInt32 :=
  (pos + 1) &&& (ht.capacity - 1)

/-- The probe of an insert for an empty slot. -/
def freeSlot (ht : VecLinearProbeHT) : Nat → UInt32 → Option UInt32
  | 0, _ => none
  | fuel + 1, pos => do
    let state ← ht.states[pos.toNat]?
    if state ≠ 0 then freeSlot ht fuel (ht.nextPos pos) else some pos

def volvecHtInsert (fuel : Nat) (ht : VecLinearProbeHT) (key payload : UInt64) :
    Option VecLinearProbeHT := do
  let hash := volvecHashKey key
  let pos := hash &&& (ht.capacity - 1)
  let slot := ht.count
  let payloads ← store ht.payloads slot.toNat payload
  let pos ← freeSlot ht fuel pos
  let keys ← store ht.keys pos.toNat key
  let values ← store ht.values pos.toNat slot
  let states ← store ht.states pos.toNat 1
  return { ht with
    payloads := payloads, keys := keys, values := values, states := states, count := ht.count + 1 }

/-- The loop of a probe; the first argument is how many slots of the round are left. -/
def probeLoop (ht : VecLinearProbeHT) (key : UInt64) : Nat → UInt32 → Option (Option UInt64)
  | left, pos => do
    let state ← ht.states[pos.toNat]?
    if state ≠ 0 then
      match left with
      | 0 => some none
      | left + 1 => do
        let stored ← ht.keys[pos.toNat]?
        if stored = key then
          let slot ← ht.values[pos.toNat]?
          let payload ← ht.payloads[slot.toNat]?
          some (some payload)
        else probeLoop ht key left (ht.nextPos pos)
    else some none

/-- The payload of a key, where it is found. -/
def volvecHtProbe (ht : VecLinearProbeHT) (key : UInt64) (hash : UInt32) :
    Option (Option UInt64) :=
  probeLoop ht key ht.capacity.toNat (hash &&& (ht.capacity - 1))

/-- The loop of a probe for all matches, with those that are in the caller's array. -/
def probeAllLoop (ht : VecLinearProbeHT) (key : UInt64) (maxMatches : UInt32) :
    Nat → UInt32 → List UInt32 → Option (List UInt32)
  | left, pos, matchSlots => do
    let state ← ht.states[pos.toNat]?
    if state ≠ 0 then
      match left with
      | 0 => some matchSlots
      | left + 1 => do
        let stored ← ht.keys[pos.toNat]?
        if stored = key ∧ matchSlots.length < maxMatches.toNat then
          let slot ← ht.values[pos.toNat]?
          probeAllLoop ht key maxMatches left (ht.nextPos pos) (matchSlots ++ [slot])
        else probeAllLoop ht key maxMatches left (ht.nextPos pos) matchSlots
    else some matchSlots

/-- The slots of a key that are written to the caller's array. -/
def volvecHtProbeAll (ht : VecLinearProbeHT) (key : UInt64) (hash maxMatches : UInt32) :
    Option (List UInt32) :=
  probeAllLoop ht key maxMatches ht.capacity.toNat (hash &&& (ht.capacity - 1)) []

/-- The entries, keys with their payloads, inserted into both tables. -/
def insertAll (fuel : Nat) (ht : VecLinearProbeHT) (bloom : VecBloomFilter) :
    List (UInt64 × UInt64) → Option (VecLinearProbeHT × VecBloomFilter)
  | [] => some (ht, bloom)
  | row :: rows => do
    let ht ← volvecHtInsert fuel ht row.1 row.2
    let bloom ← volvecBloomInsert bloom row.1
    insertAll fuel ht bloom rows


/-! ## Keys and stores -/

/-- The step of the finalizer that a second one undoes. -/
def xorShift (key : UInt64) : UInt64 := key ^^^ (key >>> 33)

theorem xorShift_xorShift (key : UInt64) : xorShift (xorShift key) = key := by
  apply UInt64.toBitVec_inj.1
  ext i hi
  have hout : key.toBitVec.getLsbD (33 + (33 + i)) = false := BitVec.getLsbD_of_ge _ _ (by omega)
  simp [xorShift, hout]

theorem mul_mul_inverse (key : UInt64) {a b : UInt64} (h : b * a = 1) : key * b * a = key := by
  rw [UInt64.mul_assoc, h, UInt64.mul_one]

/-- **Every hash is that of a key**: the steps of the finalizer can be undone. -/
theorem volvecHashKey_surjective (hash : UInt32) : ∃ key, volvecHashKey key = hash := by
  refine ⟨xorShift (xorShift (xorShift hash.toUInt64 * 0x9cb4b2f8129337db) *
    0x4f74430c22a54005), ?_⟩
  show (xorShift (xorShift (xorShift _ * _) * _)).toUInt32 = hash
  rw [xorShift_xorShift, mul_mul_inverse _ (by decide), xorShift_xorShift,
    mul_mul_inverse _ (by decide), xorShift_xorShift]
  exact UInt32.toUInt32_toUInt64 hash

theorem store_eq {α : Type} {xs : Array α} {i : Nat} (a : α) (hi : i < xs.size) :
    store xs i a = some (xs.setIfInBounds i a) := if_pos hi

theorem palloc0_eq_some {α : Type} {grants : Nat → Bool} {width bytes : Nat} {zero : α}
    {xs : Array α} (h : palloc0 grants width bytes zero = some xs) :
    grants bytes = true ∧ xs = Array.replicate (bytes / width) zero := by
  unfold palloc0 at h
  split at h
  · exact ⟨‹_›, (Option.some.inj h).symm⟩
  · cases h

/-! ## The bits of the filter -/

/-- What the init function makes. -/
structure FilterOf (n : UInt32) (bloom : VecBloomFilter) : Prop where
  bits : bloom.bits.size = ((bloomFilterBitCount n + 7) / 8).toNat / 8
  bitCount : bloom.bitCount = bloomFilterBitCount n
  hashFuncs : 1 ≤ bloom.hashFuncs.toNat ∧ bloom.hashFuncs.toNat ≤ 4
  seeds : bloom.seeds = bloomSeeds

theorem toNat_max (a b : UInt32) : (max a b).toNat = max a.toNat b.toNat := by
  show (if a ≤ b then b else a).toNat = _
  split
  · exact (Nat.max_eq_right (UInt32.le_iff_toNat_le.1 ‹_›)).symm
  · have := mt UInt32.le_iff_toNat_le.2 ‹_›
    omega

theorem toNat_min (a b : UInt32) : (min a b).toNat = min a.toNat b.toNat := by
  show (if a ≤ b then a else b).toNat = _
  split
  · exact (Nat.min_eq_left (UInt32.le_iff_toNat_le.1 ‹_›)).symm
  · have := mt UInt32.le_iff_toNat_le.2 ‹_›
    omega

theorem hashFuncs_bounds (bitCount n : UInt32) :
    1 ≤ (bloomFilterHashFuncs bitCount n).toNat ∧ (bloomFilterHashFuncs bitCount n).toNat ≤ 4 := by
  rw [bloomFilterHashFuncs, toNat_max, toNat_min]
  exact ⟨Nat.le_max_left .., Nat.max_le.2 ⟨by decide, Nat.min_le_left ..⟩⟩

theorem filterOf_init {grants : Nat → Bool} {n : UInt32} {bloom : VecBloomFilter}
    (h : volvecBloomInit grants n = some bloom) : FilterOf n bloom := by
  obtain ⟨bits, hbits, hbloom⟩ := Option.bind_eq_some_iff.1 h
  obtain rfl := Option.some.inj hbloom
  obtain ⟨-, rfl⟩ := palloc0_eq_some hbits
  exact ⟨Array.size_replicate .., rfl, hashFuncs_bounds _ _, rfl⟩

/-- The bit count of the filter, where ten bits an entry fit a machine word. -/
theorem bitCount_toNat {n : UInt32} (hn : n.toNat * 10 < 2 ^ 32) :
    (bloomFilterBitCount n).toNat = max (n.toNat * 10) 64 := by
  have hmul : (n * 10).toNat = n.toNat * 10 := by
    rw [UInt32.toNat_mul]
    exact Nat.mod_eq_of_lt hn
  rw [bloomFilterBitCount, toNat_max, hmul]
  rfl

/-- **The words of the filter lie inside its bytes**: the last of them is not cut. -/
def WordsFit (n : UInt32) : Prop :=
  (bloomFilterBitCount n).toNat % 64 = 0 ∨ 57 ≤ (bloomFilterBitCount n).toNat % 64

/-- The filter is asked for with a bit count that does not wrap. -/
def Small (n : UInt32) : Prop := n.toNat * 10 < 2 ^ 32 - 7

variable {n : UInt32} {bloom bloom' : VecBloomFilter} {key seed : UInt64} {bit : UInt32}

theorem FilterOf.size_eq (h : FilterOf n bloom) (hn : Small n) :
    bloom.bits.size = ((bloomFilterBitCount n).toNat + 7) / 8 / 8 := by
  have hcount := bitCount_toNat (show n.toNat * 10 < 2 ^ 32 from Nat.lt_of_lt_of_le hn (by decide))
  have hadd : (bloomFilterBitCount n + 7).toNat = (bloomFilterBitCount n).toNat + 7 := by
    rw [UInt32.toNat_add]
    refine Nat.mod_eq_of_lt ?_
    unfold Small at hn
    rw [hcount]
    show max _ 64 + 7 < _
    omega
  rw [h.bits, UInt32.toNat_div, hadd]
  rfl

theorem toNat_word (bit : UInt32) : (bit / 64).toNat = bit.toNat / 64 := UInt32.toNat_div ..

theorem bitOf_toNat (bitCount : UInt32) (key seed : UInt64) :
    (bitOf bitCount key seed).toNat = (volvecHashKey (key ^^^ seed)).toNat % bitCount.toNat := by
  show (((volvecHashKey (key ^^^ seed)).toUInt64 % bitCount.toUInt64).toUInt32).toNat = _
  rw [UInt64.toNat_toUInt32, UInt64.toNat_mod, UInt32.toNat_toUInt64, UInt32.toNat_toUInt64]
  refine Nat.mod_eq_of_lt (Nat.lt_of_le_of_lt (Nat.mod_le _ _) (UInt32.toNat_lt _))

theorem FilterOf.pos (h : FilterOf n bloom) : 0 < bloom.bitCount.toNat := by
  rw [h.bitCount, bloomFilterBitCount, toNat_max]
  exact Nat.lt_of_lt_of_le (by decide : 0 < (64 : UInt32).toNat) (Nat.le_max_right _ _)

/-- Every bit is in a word that was asked for. -/
theorem FilterOf.word_lt (h : FilterOf n bloom) (hn : Small n) (hfit : WordsFit n)
    (hbit : bit.toNat < bloom.bitCount.toNat) : (bit / 64).toNat < bloom.bits.size := by
  rw [h.size_eq hn, toNat_word]
  rw [h.bitCount] at hbit
  unfold WordsFit at hfit
  omega

/-- **A cut word**: the last bit is in a word that was not asked for as a whole. -/
theorem FilterOf.last_out (h : FilterOf n bloom) (hn : Small n) (hfit : ¬ WordsFit n)
    (hbit : bit.toNat = bloom.bitCount.toNat - 1) : bloom.bits.size ≤ (bit / 64).toNat := by
  have hpos := h.pos
  rw [h.size_eq hn, toNat_word]
  rw [h.bitCount] at hbit hpos
  unfold WordsFit at hfit
  omega

/-- The bit is set. -/
def HasBit (bits : Array UInt64) (bit : UInt32) : Prop :=
  ∃ word, bits[(bit / 64).toNat]? = some word ∧ word &&& maskOf bit ≠ 0

theorem maskOf_ne_zero (bit : UInt32) : maskOf bit ≠ 0 := by
  intro h
  have hval := congrArg UInt64.toNat h
  have hlt : (bit % 64).toUInt64.toNat < 64 := by
    rw [UInt32.toNat_toUInt64, UInt32.toNat_mod]
    exact Nat.mod_lt _ (by decide)
  rw [maskOf, UInt64.toNat_shiftLeft, Nat.mod_eq_of_lt hlt] at hval
  rw [Nat.mod_eq_of_lt (by
    rw [show (1 : UInt64).toNat = 1 from rfl, Nat.one_shiftLeft]
    exact Nat.pow_lt_pow_right (by decide) hlt)] at hval
  rw [show (1 : UInt64).toNat = 1 from rfl, Nat.one_shiftLeft] at hval
  exact absurd hval (Nat.ne_of_gt (Nat.two_pow_pos _))

theorem or_and_ne_zero {word mask other : UInt64} (h : word &&& other ≠ 0) :
    (word ||| mask) &&& other ≠ 0 := by
  intro hzero
  refine h (UInt64.toBitVec_inj.1 ?_)
  ext i hi
  have hbit := congrArg (fun w => w.toBitVec.getLsbD i) hzero
  simp at hbit ⊢
  grind

theorem or_mask_and_mask (word mask : UInt64) (h : mask ≠ 0) : (word ||| mask) &&& mask ≠ 0 := by
  rw [UInt64.or_comm]
  refine or_and_ne_zero ?_
  rwa [UInt64.and_self]

theorem FilterOf.word_lt_bitOf (h : FilterOf n bloom) (hn : Small n) (hfit : WordsFit n)
    (key seed : UInt64) : (bitOf bloom.bitCount key seed / 64).toNat < bloom.bits.size := by
  refine h.word_lt hn hfit ?_
  rw [bitOf_toNat]
  exact Nat.mod_lt _ h.pos

/-- The words of the filter after a bit is set. -/
def setBit (bits : Array UInt64) (bit : UInt32) (hlt : (bit / 64).toNat < bits.size) :
    Array UInt64 :=
  bits.setIfInBounds (bit / 64).toNat (bits[(bit / 64).toNat] ||| maskOf bit)

theorem bloomInsertOne_eq {i : Nat} (hseed : bloom.seeds[i]? = some seed)
    (hlt : (bitOf bloom.bitCount key seed / 64).toNat < bloom.bits.size) :
    bloomInsertOne key bloom i =
      some { bloom with bits := setBit bloom.bits (bitOf bloom.bitCount key seed) hlt } := by
  unfold bloomInsertOne
  rw [hseed, Option.bind_eq_bind, Option.bind_some]
  show Option.bind _ _ = _
  rw [Array.getElem?_eq_getElem hlt, Option.bind_some]
  show Option.bind _ _ = _
  rw [store_eq _ hlt, Option.bind_some]
  rfl

theorem hasBit_setBit {bits : Array UInt64} (hlt : (bit / 64).toNat < bits.size) :
    HasBit (setBit bits bit hlt) bit :=
  ⟨_, Array.getElem?_setIfInBounds_self_of_lt hlt, or_mask_and_mask _ _ (maskOf_ne_zero bit)⟩

theorem HasBit.setBit {bits : Array UInt64} {other : UInt32} (h : HasBit bits other)
    (hlt : (bit / 64).toNat < bits.size) : HasBit (setBit bits bit hlt) other := by
  obtain ⟨word, hword, hset⟩ := h
  by_cases heq : (bit / 64).toNat = (other / 64).toNat
  · rw [← heq, Array.getElem?_eq_getElem hlt] at hword
    obtain rfl := Option.some.inj hword
    refine ⟨bits[(bit / 64).toNat] ||| maskOf bit, ?_, or_and_ne_zero hset⟩
    rw [← heq]
    exact Array.getElem?_setIfInBounds_self_of_lt hlt
  · refine ⟨word, ?_, hset⟩
    rw [LinearProbeTables.setBit, Array.getElem?_setIfInBounds_ne heq]
    exact hword

/-- **One bit of an insert**: it is set, and those that were set stay set. -/
theorem bloomInsertOne_spec (h : FilterOf n bloom) (hn : Small n) (hfit : WordsFit n)
    (key : UInt64) {i : Nat} (hseed : bloom.seeds[i]? = some seed) :
    ∃ bloom', bloomInsertOne key bloom i = some bloom' ∧ FilterOf n bloom' ∧
      bloom'.hashFuncs = bloom.hashFuncs ∧ HasBit bloom'.bits (bitOf bloom.bitCount key seed) ∧
      ∀ bit, HasBit bloom.bits bit → HasBit bloom'.bits bit := by
  have hlt := h.word_lt_bitOf hn hfit key seed
  refine ⟨_, bloomInsertOne_eq hseed hlt, ⟨?_, h.bitCount, h.hashFuncs, h.seeds⟩, rfl,
    hasBit_setBit hlt, fun bit hbit => hbit.setBit hlt⟩
  show (setBit _ _ hlt).size = _
  rw [setBit, Array.size_setIfInBounds]
  exact h.bits

/-- The bits of a key under some of the hash functions. -/
def HasBits (bloom : VecBloomFilter) (key : UInt64) (hs : List Nat) : Prop :=
  ∀ i ∈ hs, ∀ seed, bloom.seeds[i]? = some seed → HasBit bloom.bits (bitOf bloom.bitCount key seed)

theorem FilterOf.exists_seed (h : FilterOf n bloom) {i : Nat} (hi : i < 4) :
    ∃ seed, bloom.seeds[i]? = some seed := by
  rw [h.seeds]
  exact ⟨_, Array.getElem?_eq_getElem (show i < bloomSeeds.size from hi)⟩

/-- The turns of an insert. -/
theorem bloomInsert_turns (h : FilterOf n bloom) (hn : Small n) (hfit : WordsFit n) (key : UInt64)
    (hs : List Nat) (hlt : ∀ i ∈ hs, i < 4) :
    ∃ bloom', hs.foldlM (bloomInsertOne key) bloom = some bloom' ∧ FilterOf n bloom' ∧
      bloom'.hashFuncs = bloom.hashFuncs ∧ HasBits bloom' key hs ∧
      ∀ bit, HasBit bloom.bits bit → HasBit bloom'.bits bit := by
  induction hs generalizing bloom with
  | nil => exact ⟨bloom, rfl, h, rfl, nofun, fun _ hbit => hbit⟩
  | cons i hs ih =>
    obtain ⟨seed, hseed⟩ := h.exists_seed (hlt i List.mem_cons_self)
    obtain ⟨bloom₁, hone, h₁, hfuncs₁, hset, hkept₁⟩ :=
      bloomInsertOne_spec h hn hfit key hseed
    obtain ⟨bloom₂, hrest, h₂, hfuncs₂, hbits, hkept₂⟩ :=
      ih h₁ fun j hj => hlt j (List.mem_cons_of_mem _ hj)
    refine ⟨bloom₂, ?_, h₂, hfuncs₂.trans hfuncs₁, ?_, fun bit hbit => hkept₂ bit (hkept₁ bit hbit)⟩
    · rw [List.foldlM_cons, hone]
      exact hrest
    · intro j hj seed' hseed'
      rcases List.mem_cons.1 hj with rfl | hj
      · rw [h₂.seeds, ← h.seeds, hseed, Option.some.injEq] at hseed'
        rw [h₂.bitCount, ← h.bitCount, ← hseed']
        exact hkept₂ _ hset
      · exact hbits j hj seed' hseed'

/-- The hash functions of a filter. -/
def hashes (bloom : VecBloomFilter) : List Nat := List.range bloom.hashFuncs.toNat

theorem FilterOf.hashes_lt (h : FilterOf n bloom) : ∀ i ∈ hashes bloom, i < 4 := by
  intro i hi
  exact Nat.lt_of_lt_of_le (List.mem_range.1 hi) h.hashFuncs.2

/-- **An insert** sets the bits of its key and keeps those of the others. -/
theorem volvecBloomInsert_spec (h : FilterOf n bloom) (hn : Small n) (hfit : WordsFit n)
    (key : UInt64) :
    ∃ bloom', volvecBloomInsert bloom key = some bloom' ∧ FilterOf n bloom' ∧
      HasBits bloom' key (hashes bloom') ∧
      ∀ key', HasBits bloom key' (hashes bloom) → HasBits bloom' key' (hashes bloom') := by
  obtain ⟨bloom', hrun, h', hfuncs, hbits, hkept⟩ :=
    bloomInsert_turns h hn hfit key (hashes bloom) h.hashes_lt
  have hsame : hashes bloom' = hashes bloom := by rw [hashes, hfuncs, hashes]
  refine ⟨bloom', hrun, h', hsame ▸ hbits, fun key' hold i hi seed hseed => ?_⟩
  rw [h'.bitCount, ← h.bitCount]
  rw [h'.seeds, ← h.seeds] at hseed
  exact hkept _ (hold i (hsame ▸ hi) seed hseed)

/-- **A look-up** stays inside the filter, and finds a key all of whose bits are set. -/
theorem mightContain_spec (h : FilterOf n bloom) (hn : Small n) (hfit : WordsFit n) (key : UInt64)
    (hs : List Nat) (hlt : ∀ i ∈ hs, i < 4) :
    ∃ answer, mightContainLoop bloom key hs = some answer ∧
      (HasBits bloom key hs → answer = true) := by
  induction hs with
  | nil => exact ⟨true, rfl, fun _ => rfl⟩
  | cons i hs ih =>
    obtain ⟨seed, hseed⟩ := h.exists_seed (hlt i List.mem_cons_self)
    obtain ⟨answer, hrest, htrue⟩ := ih fun j hj => hlt j (List.mem_cons_of_mem _ hj)
    have hword := h.word_lt_bitOf hn hfit key seed
    have hturn : mightContainLoop bloom key (i :: hs) =
        if bloom.bits[(bitOf bloom.bitCount key seed / 64).toNat] &&&
            maskOf (bitOf bloom.bitCount key seed) = 0
        then some false else mightContainLoop bloom key hs := by
      rw [mightContainLoop, hseed, Option.bind_eq_bind, Option.bind_some]
      show Option.bind _ _ = _
      rw [Array.getElem?_eq_getElem hword, Option.bind_some]
    rw [hturn]
    split
    · refine ⟨false, rfl, fun hall => ?_⟩
      obtain ⟨word, hget, hset⟩ := hall i List.mem_cons_self seed hseed
      rw [Array.getElem?_eq_getElem hword, Option.some.injEq] at hget
      exact absurd (hget ▸ ‹_›) hset
    · exact ⟨answer, hrest, fun hall => htrue fun j hj => hall j (List.mem_cons_of_mem _ hj)⟩

/-- **Where the last word is cut, the insert of some key reaches outside of the filter.** -/
theorem exists_insert_outside (h : FilterOf n bloom) (hn : Small n) (hfit : ¬ WordsFit n) :
    ∃ key, volvecBloomInsert bloom key = none := by
  obtain ⟨hash, hhash⟩ := volvecHashKey_surjective (bloom.bitCount - 1)
  have hpos := h.pos
  have hlast : (bloom.bitCount - 1).toNat = bloom.bitCount.toNat - 1 := by
    rw [UInt32.toNat_sub_of_le]
    · rfl
    · exact UInt32.le_iff_toNat_le.2 hpos
  obtain ⟨seed, hseed⟩ := h.exists_seed (show 0 < 4 by decide)
  refine ⟨hash ^^^ seed, ?_⟩
  obtain ⟨hs, hrange⟩ : ∃ hs, List.range bloom.hashFuncs.toNat = 0 :: hs := by
    obtain ⟨funcs, hfuncs⟩ := Nat.exists_eq_add_of_le' h.hashFuncs.1
    exact ⟨_, by rw [hfuncs, List.range_succ_eq_map]⟩
  have hbit : (bitOf bloom.bitCount (hash ^^^ seed) seed).toNat = bloom.bitCount.toNat - 1 := by
    rw [bitOf_toNat, UInt64.xor_assoc, UInt64.xor_self, UInt64.xor_zero, hhash, hlast]
    exact Nat.mod_eq_of_lt (Nat.sub_lt hpos Nat.one_pos)
  rw [volvecBloomInsert, hrange, List.foldlM_cons]
  have hone : bloomInsertOne (hash ^^^ seed) bloom 0 = none := by
    unfold bloomInsertOne
    rw [hseed, Option.bind_eq_bind, Option.bind_some]
    show Option.bind _ _ = _
    rw [Array.getElem?_eq_none (h.last_out hn hfit hbit), Option.bind_none]
  rw [hone]
  rfl

/-! ## The slots of the table -/

/-- The slots of a key, in the order of a probe. -/
def path (capacity : Nat) (key : UInt64) (m : Nat) : Nat :=
  ((volvecHashKey key).toNat + m) % capacity

theorem path_injective (capacity : Nat) (key : UInt64) : ∀ m < capacity, ∀ m' < capacity,
    path capacity key m = path capacity key m' → m = m' := by
  intro m hm m' hm' heq
  exact Nat.ModEq.eq_of_lt_of_lt (Nat.ModEq.add_left_cancel' _ heq) hm hm'

theorem path_succ (capacity : Nat) (key : UInt64) (m : Nat) :
    path capacity key (m + 1) = (path capacity key m + 1) % capacity := by
  rw [path, path, Nat.mod_add_mod, Nat.add_assoc]

/-- The numbers of the entries at the slots that are taken. -/
def slotTable (ht : VecLinearProbeHT) (s : Nat) : Option Nat :=
  if ht.states[s]? = some 0 then none else (ht.values[s]?).map UInt32.toNat

/-- **A table for `n` entries**: a power of two of slots, more than the entries. -/
structure Sized (n : UInt32) (k : Nat) (ht : VecLinearProbeHT) : Prop where
  width : k < 32
  capacity : ht.capacity.toNat = 2 ^ k
  room : n.toNat < 2 ^ k
  keys : ht.keys.size = 2 ^ k
  values : ht.values.size = 2 ^ k
  states : ht.states.size = 2 ^ k
  payloads : ht.payloads.size = n.toNat

/-- **A table with its entries.** -/
structure Holds (n : UInt32) (k : Nat) (ht : VecLinearProbeHT) (rows : List (UInt64 × UInt64)) :
    Prop where
  sized : Sized n k ht
  count : ht.count.toNat = rows.length
  slots : WellFormed (path (2 ^ k)) (slotTable ht) (rows.map Prod.fst)
  keyed : ∀ s i, slotTable ht s = some i → ht.keys[s]? = (rows.map Prod.fst)[i]?
  stored : ∀ (i : Nat) (row : UInt64 × UInt64), rows[i]? = some row → ht.payloads[i]? = some row.2

section Tables

variable {k : Nat} {ht : VecLinearProbeHT} {rows : List (UInt64 × UInt64)} {pos : UInt32}

theorem and_mask (h : Sized n k ht) (pos : UInt32) :
    (pos &&& (ht.capacity - 1)).toNat = pos.toNat % 2 ^ k := by
  have hone : (1 : UInt32) ≤ ht.capacity := by
    rw [UInt32.le_iff_toNat_le, h.capacity]
    exact Nat.two_pow_pos k
  rw [UInt32.toNat_and, UInt32.toNat_sub_of_le _ _ hone, h.capacity]
  exact Nat.and_two_pow_sub_one_eq_mod _ _

theorem home_toNat (h : Sized n k ht) (key : UInt64) :
    (volvecHashKey key &&& (ht.capacity - 1)).toNat = path (2 ^ k) key 0 := by
  rw [and_mask h, path, Nat.add_zero]

/-- A turn of a probe goes to the next slot of the path. -/
theorem nextPos_toNat (h : Sized n k ht) {m : Nat} (hpos : pos.toNat = path (2 ^ k) key m) :
    (ht.nextPos pos).toNat = path (2 ^ k) key (m + 1) := by
  have hdvd : 2 ^ k ∣ 2 ^ 32 := Nat.pow_dvd_pow 2 (Nat.le_of_lt h.width)
  rw [VecLinearProbeHT.nextPos, and_mask h, UInt32.toNat_add, Nat.mod_mod_of_dvd _ hdvd, hpos,
    path_succ]
  rfl

theorem path_lt (h : Sized n k ht) {m : Nat} (hpos : pos.toNat = path (2 ^ k) key m) :
    pos.toNat < 2 ^ k := by
  rw [hpos]
  exact Nat.mod_lt _ (Nat.lt_of_le_of_lt (Nat.zero_le _) h.room)

/-- A slot is empty where its state is zero. -/
theorem slotTable_eq_none (h : Sized n k ht) {s : Nat} (hs : s < 2 ^ k) :
    slotTable ht s = none ↔ ht.states[s]? = some 0 := by
  unfold slotTable
  split
  · exact ⟨fun _ => ‹_›, fun _ => rfl⟩
  · rw [Array.getElem?_eq_getElem (h.values ▸ hs)]
    exact ⟨fun hnone => (Option.some_ne_none _ hnone).elim, fun hzero => absurd hzero ‹_›⟩

/-- The state of a slot. -/
theorem state_of_slot (h : Sized n k ht) {s : Nat} (hs : s < 2 ^ k) :
    ∃ state, ht.states[s]? = some state ∧ (state ≠ 0 ↔ slotTable ht s ≠ none) := by
  refine ⟨_, Array.getElem?_eq_getElem (h.states ▸ hs), not_congr ?_⟩
  rw [slotTable_eq_none h hs, Array.getElem?_eq_getElem (h.states ▸ hs), Option.some.injEq]

/-- The number at a slot that is taken. -/
theorem value_of_slot {s i : Nat} (h : slotTable ht s = some i) :
    ∃ value, ht.values[s]? = some value ∧ value.toNat = i := by
  unfold slotTable at h
  split at h
  · cases h
  · exact Option.map_eq_some_iff.1 h

/-- **The probe of an insert ends** at the first empty slot of the key. -/
theorem freeSlot_spec (h : Sized n k ht) {last : Nat}
    (hfirst : FirstEmpty (path (2 ^ k)) (slotTable ht) key last) (fuel m : Nat)
    (hpos : pos.toNat = path (2 ^ k) key m) (hm : m ≤ last) (hfuel : last - m < fuel) :
    ∃ free, freeSlot ht fuel pos = some free ∧ free.toNat = path (2 ^ k) key last := by
  induction fuel generalizing m pos with
  | zero => exact absurd hfuel (Nat.not_lt_zero _)
  | succ fuel ih =>
    obtain ⟨state, hstate, htaken⟩ := state_of_slot h (path_lt h hpos)
    rw [hpos] at htaken
    rw [freeSlot, hstate, Option.bind_eq_bind, Option.bind_some]
    rcases Nat.lt_or_eq_of_le hm with hlt | rfl
    · rw [if_pos (htaken.2 (hfirst.taken m hlt))]
      exact ih (m + 1) (nextPos_toNat h hpos) hlt (by omega)
    · rw [if_neg fun hne => htaken.1 hne hfirst.empty]
      exact ⟨pos, rfl, hpos⟩

/-- The slots after an entry is stored at an empty one. -/
theorem slotTable_store (h : Sized n k ht) {free : UInt32} (hfree : free.toNat < 2 ^ k)
    (slot : UInt32) (keys payloads : Array UInt64) (count : UInt32) :
    slotTable { ht with
      payloads := payloads, keys := keys, values := ht.values.setIfInBounds free.toNat slot,
      states := ht.states.setIfInBounds free.toNat 1, count := count } =
      Function.update (slotTable ht) free.toNat (some slot.toNat) := by
  funext s
  by_cases heq : s = free.toNat
  · rw [heq, Function.update_self, slotTable,
      Array.getElem?_setIfInBounds_self_of_lt (h.states ▸ hfree),
      Array.getElem?_setIfInBounds_self_of_lt (h.values ▸ hfree)]
    rfl
  · rw [Function.update_of_ne heq, slotTable, slotTable,
      Array.getElem?_setIfInBounds_ne (Ne.symm heq), Array.getElem?_setIfInBounds_ne (Ne.symm heq)]

/-- **An insert** ends, stays inside the table and enters its row. -/
theorem volvecHtInsert_spec (h : Holds n k ht rows) (hroom : rows.length < n.toNat) {fuel : Nat}
    (hfuel : 2 ^ k < fuel) (key payload : UInt64) :
    ∃ ht', volvecHtInsert fuel ht key payload = some ht' ∧
      Holds n k ht' (rows ++ [(key, payload)]) := by
  have hs := h.sized
  obtain ⟨last, hlast, hfirst⟩ := h.slots.exists_firstEmpty (k := key) (path_injective _ key)
    (by rw [List.length_map]; exact Nat.lt_trans hroom hs.room)
  obtain ⟨free, hprobe, hplace⟩ := freeSlot_spec hs hfirst fuel 0 (home_toNat hs key)
    (Nat.zero_le _) (by omega)
  have hfree := path_lt hs hplace
  have hcount : ht.count.toNat < ht.payloads.size := by
    rw [hs.payloads, h.count]
    exact hroom
  refine ⟨{ ht with
    payloads := ht.payloads.setIfInBounds ht.count.toNat payload
    keys := ht.keys.setIfInBounds free.toNat key
    values := ht.values.setIfInBounds free.toNat ht.count
    states := ht.states.setIfInBounds free.toNat 1
    count := ht.count + 1 }, ?_, ?_⟩
  · unfold volvecHtInsert
    show Option.bind _ _ = _
    rw [store_eq _ hcount, Option.bind_some]
    show Option.bind _ _ = _
    rw [hprobe, Option.bind_some]
    show Option.bind _ _ = _
    rw [store_eq _ (hs.keys ▸ hfree), Option.bind_some]
    show Option.bind _ _ = _
    rw [store_eq _ (hs.values ▸ hfree), Option.bind_some]
    show Option.bind _ _ = _
    rw [store_eq _ (hs.states ▸ hfree), Option.bind_some]
    rfl
  · have htable := slotTable_store hs hfree ht.count (ht.keys.setIfInBounds free.toNat key)
      (ht.payloads.setIfInBounds ht.count.toNat payload) (ht.count + 1)
    refine ⟨⟨hs.width, hs.capacity, hs.room, ?_, ?_, ?_, ?_⟩, ?_, ?_, ?_, ?_⟩
    · exact (Array.size_setIfInBounds ..).trans hs.keys
    · exact (Array.size_setIfInBounds ..).trans hs.values
    · exact (Array.size_setIfInBounds ..).trans hs.states
    · exact (Array.size_setIfInBounds ..).trans hs.payloads
    · show (ht.count + 1).toNat = _
      have hn := n.toNat_lt
      have hlength := h.count
      rw [UInt32.toNat_add, List.length_append, List.length_singleton, h.count]
      exact Nat.mod_eq_of_lt (show rows.length + 1 < 2 ^ 32 by omega)
    · rw [htable, hplace, h.count, List.map_append, ← List.length_map (f := Prod.fst)]
      exact h.slots.insert hfirst
    · intro s i hslot
      show (ht.keys.setIfInBounds free.toNat key)[s]? = _
      rw [htable] at hslot
      by_cases heq : s = free.toNat
      · rw [heq, Function.update_self, Option.some.injEq, h.count] at hslot
        rw [heq, Array.getElem?_setIfInBounds_self_of_lt (hs.keys ▸ hfree), ← hslot,
          List.map_append, ← List.length_map (f := Prod.fst)]
        exact List.getElem?_concat_length.symm
      · rw [Function.update_of_ne heq] at hslot
        rw [Array.getElem?_setIfInBounds_ne (Ne.symm heq), h.keyed s i hslot, List.map_append,
          List.getElem?_append_left (h.slots.inside s i hslot)]
    · intro i row hrow
      show (ht.payloads.setIfInBounds ht.count.toNat payload)[i]? = _
      rcases Nat.lt_or_ge i rows.length with hlt | hge
      · rw [List.getElem?_append_left hlt] at hrow
        rw [Array.getElem?_setIfInBounds_ne (by rw [h.count]; exact Nat.ne_of_gt hlt)]
        exact h.stored i row hrow
      · have hlength := (List.getElem?_eq_some_iff.1 hrow).1
        rw [List.length_append, List.length_singleton] at hlength
        obtain rfl : i = rows.length := by omega
        rw [List.getElem?_concat_length, Option.some.injEq] at hrow
        rw [← h.count, Array.getElem?_setIfInBounds_self_of_lt hcount, ← hrow]

/-! ## Look-ups -/

/-- What a probe reads at a slot that is taken. -/
theorem Holds.read (h : Holds n k ht rows) {m : Nat} (hpos : pos.toNat = path (2 ^ k) key m)
    (htaken : slotTable ht (path (2 ^ k) key m) ≠ none) :
    ∃ i stored slot payload, slotTable ht (path (2 ^ k) key m) = some i ∧
      (rows.map Prod.fst)[i]? = some stored ∧ ht.keys[pos.toNat]? = some stored ∧
      ht.values[pos.toNat]? = some slot ∧ slot.toNat = i ∧
      ht.payloads[slot.toNat]? = some payload := by
  obtain ⟨i, hi⟩ := Option.ne_none_iff_exists'.1 htaken
  have hinside := h.slots.inside _ i hi
  obtain ⟨slot, hvalue, hslot⟩ := value_of_slot hi
  have hrow := List.getElem?_eq_getElem hinside
  rw [List.length_map] at hinside
  refine ⟨i, _, slot, rows[i].2, hi, hrow, ?_, hpos ▸ hvalue, hslot, ?_⟩
  · rw [hpos, h.keyed _ i hi]
    exact hrow
  · rw [hslot]
    exact h.stored i _ (List.getElem?_eq_getElem hinside)

/-- **The probe for all matches** goes round no further than to the first empty slot, and writes
the numbers of the key's entries where there is room for them. -/
theorem probeAllLoop_spec (h : Holds n k ht rows) {last : Nat}
    (hfirst : FirstEmpty (path (2 ^ k)) (slotTable ht) key last) (maxMatches : UInt32)
    (left m : Nat) (matchSlots : List UInt32) (hpos : pos.toNat = path (2 ^ k) key m)
    (hm : m ≤ last) (hleft : last - m ≤ left) :
    ∃ slots, probeAllLoop ht key maxMatches left pos matchSlots = some slots ∧
      (matchSlots.length + (matchesFrom (path (2 ^ k)) (slotTable ht) (rows.map Prod.fst) key m
          last).length ≤ maxMatches.toNat →
        slots.map UInt32.toNat = matchSlots.map UInt32.toNat ++
          matchesFrom (path (2 ^ k)) (slotTable ht) (rows.map Prod.fst) key m last) := by
  induction left generalizing m pos matchSlots with
  | zero =>
    obtain rfl : m = last := by omega
    obtain ⟨state, hstate, htaken⟩ := state_of_slot h.sized (path_lt h.sized hpos)
    rw [hpos] at htaken
    refine ⟨matchSlots, ?_, fun _ => ?_⟩
    · unfold probeAllLoop
      rw [hstate, Option.bind_eq_bind, Option.bind_some,
        if_neg fun hne => htaken.1 hne hfirst.empty]
    · rw [matchesFrom_self, List.append_nil]
  | succ left ih =>
    obtain ⟨state, hstate, htaken⟩ := state_of_slot h.sized (path_lt h.sized hpos)
    rw [hpos] at htaken
    unfold probeAllLoop
    rw [hstate, Option.bind_eq_bind, Option.bind_some]
    rcases Nat.lt_or_eq_of_le hm with hlt | rfl
    · rw [if_pos (htaken.2 (hfirst.taken m hlt))]
      obtain ⟨i, stored, slot, -, hslot, hrow, hkey, hvalue, hvalueEq, -⟩ :=
        h.read hpos (hfirst.taken m hlt)
      have hturn := matchesFrom_turn hlt hslot hrow
      show ∃ slots, Option.bind _ _ = some slots ∧ _
      rw [hkey, Option.bind_some]
      have hnext := nextPos_toNat h.sized hpos
      by_cases hwrite : stored = key ∧ matchSlots.length < maxMatches.toNat
      · rw [if_pos hwrite]
        show ∃ slots, Option.bind _ _ = some slots ∧ _
        rw [hvalue, Option.bind_some]
        obtain ⟨slots, hrun, hall⟩ := ih (m + 1) (matchSlots ++ [slot]) hnext hlt (by omega)
        refine ⟨slots, hrun, fun hroom => ?_⟩
        rw [hturn, if_pos hwrite.1] at hroom ⊢
        rw [hall, List.map_append, List.append_assoc, List.map_singleton, hvalueEq]
        · rfl
        · rw [List.length_append, List.length_singleton]
          rw [List.length_cons] at hroom
          omega
      · rw [if_neg hwrite]
        obtain ⟨slots, hrun, hall⟩ := ih (m + 1) matchSlots hnext hlt (by omega)
        refine ⟨slots, hrun, fun hroom => ?_⟩
        by_cases heq : stored = key
        · rw [hturn, if_pos heq, List.length_cons] at hroom
          exact absurd ⟨heq, by omega⟩ hwrite
        · rw [hturn, if_neg heq] at hroom ⊢
          exact hall hroom
    · rw [if_neg fun hne => htaken.1 hne hfirst.empty]
      exact ⟨matchSlots, rfl, fun _ => by rw [matchesFrom_self, List.append_nil]⟩

/-- **The probe for one match** finds the first entry of the key. -/
theorem probeLoop_spec (h : Holds n k ht rows) {last : Nat}
    (hfirst : FirstEmpty (path (2 ^ k)) (slotTable ht) key last) (left m : Nat)
    (hpos : pos.toNat = path (2 ^ k) key m) (hm : m ≤ last) (hleft : last - m ≤ left) :
    ∃ found, probeLoop ht key left pos = some found ∧
      found = (matchesFrom (path (2 ^ k)) (slotTable ht) (rows.map Prod.fst) key m
        last).head?.bind fun i => ht.payloads[i]? := by
  induction left generalizing m pos with
  | zero =>
    obtain rfl : m = last := by omega
    obtain ⟨state, hstate, htaken⟩ := state_of_slot h.sized (path_lt h.sized hpos)
    rw [hpos] at htaken
    refine ⟨none, ?_, ?_⟩
    · unfold probeLoop
      rw [hstate, Option.bind_eq_bind, Option.bind_some,
        if_neg fun hne => htaken.1 hne hfirst.empty]
    · rw [matchesFrom_self]
      rfl
  | succ left ih =>
    obtain ⟨state, hstate, htaken⟩ := state_of_slot h.sized (path_lt h.sized hpos)
    rw [hpos] at htaken
    unfold probeLoop
    rw [hstate, Option.bind_eq_bind, Option.bind_some]
    rcases Nat.lt_or_eq_of_le hm with hlt | rfl
    · rw [if_pos (htaken.2 (hfirst.taken m hlt))]
      obtain ⟨i, stored, slot, payload, hslot, hrow, hkey, hvalue, hvalueEq, hpayload⟩ :=
        h.read hpos (hfirst.taken m hlt)
      have hturn := matchesFrom_turn hlt hslot hrow
      show ∃ found, Option.bind _ _ = some found ∧ _
      rw [hkey, Option.bind_some]
      by_cases heq : stored = key
      · rw [if_pos heq]
        show ∃ found, Option.bind _ _ = some found ∧ _
        rw [hvalue, Option.bind_some]
        show ∃ found, Option.bind _ _ = some found ∧ _
        rw [hpayload, Option.bind_some, hturn, if_pos heq]
        refine ⟨some payload, rfl, ?_⟩
        rw [List.head?_cons, Option.bind_some, ← hvalueEq, hpayload]
      · rw [if_neg heq, hturn, if_neg heq]
        exact ih (m + 1) (nextPos_toNat h.sized hpos) hlt (by omega)
    · rw [if_neg fun hne => htaken.1 hne hfirst.empty]
      exact ⟨none, rfl, by rw [matchesFrom_self]; rfl⟩

/-! ## The sizes of the init functions -/

theorem neededSlots_toNat (hn : n.toNat * 4 / 3 + 1 < 2 ^ 32) :
    (neededSlots n).toNat = n.toNat * 4 / 3 + 1 := by
  rw [neededSlots, UInt32.toNat_add, UInt32.toNat_ofNat',
    Nat.mod_eq_of_lt (show n.toNat * 4 / 3 < 2 ^ 32 by omega)]
  exact Nat.mod_eq_of_lt hn

/-- One turn of the search for a capacity. -/
theorem shiftLeft_one_toNat {cap : UInt32} {k : Nat} (hk : k < 31) (hcap : cap.toNat = 2 ^ k) :
    (cap <<< 1).toNat = 2 ^ (k + 1) := by
  rw [UInt32.toNat_shiftLeft, hcap, show (1 : UInt32).toNat % 32 = 1 from rfl, Nat.shiftLeft_eq,
    ← Nat.pow_succ]
  exact Nat.mod_eq_of_lt (Nat.pow_lt_pow_right (by decide) (by omega))

/-- Behind the last power of two that fits a machine word the search goes on with zero. -/
theorem shiftLeft_one_eq_zero {cap : UInt32} (hcap : cap.toNat = 2 ^ 31) : cap <<< 1 = 0 := by
  obtain rfl : cap = 0x80000000 := UInt32.toNat_inj.1 hcap
  rfl

theorem capacityLoop_zero {needed : UInt32} (hneeded : 0 < needed) (fuel : Nat) :
    capacityLoop needed fuel 0 = none := by
  induction fuel with
  | zero => rfl
  | succ fuel ih =>
    rw [capacityLoop, if_pos hneeded]
    exact ih

/-- **The capacity** is a power of two that holds the needed slots. -/
theorem capacityLoop_spec {needed capacity : UInt32} (fuel : Nat) {cap : UInt32} {k : Nat}
    (hk : k < 32) (hcap : cap.toNat = 2 ^ k) (h : capacityLoop needed fuel cap = some capacity) :
    ∃ k < 32, capacity.toNat = 2 ^ k ∧ needed ≤ capacity := by
  induction fuel generalizing cap k with
  | zero => cases h
  | succ fuel ih =>
    rw [capacityLoop] at h
    split at h
    · rename_i hless
      rcases Nat.lt_or_eq_of_le (Nat.le_of_lt_succ hk) with hlt | rfl
      · exact ih (by omega) (shiftLeft_one_toNat hlt hcap) h
      · rw [shiftLeft_one_eq_zero hcap, capacityLoop_zero] at h
        · cases h
        · exact UInt32.lt_of_le_of_lt (UInt32.zero_le ..) hless
    · obtain rfl := Option.some.inj h
      exact ⟨k, hk, hcap, UInt32.not_lt.1 ‹_›⟩

/-- The search ends where a power of two that fits a machine word is enough. -/
theorem capacityLoop_ends {needed cap : UInt32} {k : Nat} (hk : k < 32) (hcap : cap.toNat = 2 ^ k)
    (hneeded : needed.toNat ≤ 2 ^ 31) (fuel : Nat) (hfuel : 31 - k < fuel) :
    (capacityLoop needed fuel cap).isSome = true := by
  induction fuel generalizing cap k with
  | zero => exact absurd hfuel (Nat.not_lt_zero _)
  | succ fuel ih =>
    rw [capacityLoop]
    split
    · rename_i hless
      rcases Nat.lt_or_eq_of_le (Nat.le_of_lt_succ hk) with hlt | rfl
      · exact ih (by omega) (shiftLeft_one_toNat hlt hcap) (by omega)
      · rw [UInt32.lt_iff_toNat_lt, hcap] at hless
        exact absurd hneeded (Nat.not_le.2 hless)
    · rfl

/-- **When the search for a capacity ends.** -/
theorem capacity_ends_iff (n : UInt32) :
    (∃ fuel, (volvecHtCapacity fuel n).isSome = true) ↔ (neededSlots n).toNat ≤ 2 ^ 31 := by
  constructor
  · rintro ⟨fuel, hsome⟩
    obtain ⟨capacity, hcapacity⟩ := Option.isSome_iff_exists.1 hsome
    obtain ⟨k, hk, heq, hle⟩ := capacityLoop_spec fuel (show 0 < 32 by decide) rfl hcapacity
    rw [UInt32.le_iff_toNat_le, heq] at hle
    exact hle.trans (Nat.pow_le_pow_right (by decide) (by omega))
  · intro hneeded
    exact ⟨32, capacityLoop_ends (show 0 < 32 by decide) rfl hneeded 32 (by decide)⟩

/-- A zeroed table has no entries. -/
theorem slotTable_zeroed (capacity : Nat) (hstates : ht.states = Array.replicate capacity 0)
    (hvalues : ht.values = Array.replicate capacity 0) : slotTable ht = fun _ => none := by
  funext s
  rw [slotTable, hstates, hvalues, Array.getElem?_replicate, Array.getElem?_replicate]
  by_cases hs : s < capacity
  · rw [if_pos hs, if_pos hs, if_pos rfl]
  · rw [if_neg hs, if_neg hs, if_neg (Option.some_ne_none _).symm]
    rfl

/-- The largest request that the allocator grants. -/
def MaxAllocSize : Nat := 0x3fffffff

/-- The allocator refuses what is larger than its limit. -/
def Limited (grants : Nat → Bool) : Prop := ∀ size, grants size = true → size ≤ MaxAllocSize

/-- **The init function makes an empty table.** -/
theorem holds_init {grants : Nat → Bool} (hgrants : Limited grants) {fuel : Nat}
    (h : volvecHtInit grants fuel n = some ht) : Small n ∧ ∃ k, Holds n k ht [] := by
  obtain ⟨capacity, hcapacity, h⟩ := Option.bind_eq_some_iff.1 h
  obtain ⟨keys, hkeys, h⟩ := Option.bind_eq_some_iff.1 h
  obtain ⟨values, hvalues, h⟩ := Option.bind_eq_some_iff.1 h
  obtain ⟨states, hstates, h⟩ := Option.bind_eq_some_iff.1 h
  obtain ⟨payloads, hpayloads, h⟩ := Option.bind_eq_some_iff.1 h
  obtain rfl := Option.some.inj h
  obtain ⟨-, rfl⟩ := palloc0_eq_some hkeys
  obtain ⟨-, rfl⟩ := palloc0_eq_some hvalues
  obtain ⟨-, rfl⟩ := palloc0_eq_some hstates
  obtain ⟨hgranted, rfl⟩ := palloc0_eq_some hpayloads
  have hlimit : n.toNat * 8 ≤ 0x3fffffff := hgrants _ hgranted
  obtain ⟨k, hk, heq, hle⟩ := capacityLoop_spec fuel (show 0 < 32 by decide) rfl hcapacity
  rw [UInt32.le_iff_toNat_le, neededSlots_toNat (by omega), heq] at hle
  have hstatesSize : capacity.toNat / 1 = 2 ^ k := by rw [heq, Nat.div_one]
  have hkeysSize : capacity.toNat * 8 / 8 = 2 ^ k := by rw [heq, Nat.mul_div_cancel _ (by decide)]
  have hvaluesSize : capacity.toNat * 4 / 4 = 2 ^ k := by rw [heq, Nat.mul_div_cancel _ (by decide)]
  refine ⟨show n.toNat * 10 < 2 ^ 32 - 7 by omega, k, ?_⟩
  rw [hstatesSize, hkeysSize, hvaluesSize]
  generalize hht : VecLinearProbeHT.mk _ _ _ _ _ _ = ht
  have hempty : slotTable ht = fun _ => none :=
    slotTable_zeroed (2 ^ k) (by rw [← hht]) (by rw [← hht])
  refine ⟨⟨hk, ?_, by omega, ?_, ?_, ?_, ?_⟩, ?_, ?_, ?_, nofun⟩
  · rw [← hht, heq]
  · rw [← hht, Array.size_replicate]
  · rw [← hht, Array.size_replicate]
  · rw [← hht, Array.size_replicate]
  · rw [← hht, Array.size_replicate, Nat.mul_div_cancel _ (by decide)]
  · rw [← hht]
    rfl
  · rw [hempty]
    exact wellFormed_nil
  · intro s i hslot
    rw [hempty] at hslot
    cases hslot

end Tables

/-! ## Both tables -/

/-- The init functions of both tables return. -/
def Initialised (grants : Nat → Bool) (n : UInt32) (ht : VecLinearProbeHT)
    (bloom : VecBloomFilter) : Prop :=
  (∃ fuel, volvecHtInit grants fuel n = some ht) ∧ volvecBloomInit grants n = some bloom

/-- **What both tables answer** once the entries are in them. -/
structure Serves (ht : VecLinearProbeHT) (bloom : VecBloomFilter)
    (rows : List (UInt64 × UInt64)) : Prop where
  stored : ∀ (i : Nat) (row : UInt64 × UInt64), rows[i]? = some row → ht.payloads[i]? = some row.2
  probeAll : ∀ key maxMatches, ∃ slots,
    volvecHtProbeAll ht key (volvecHashKey key) maxMatches = some slots ∧
      ((rowsOf (rows.map Prod.fst) key).length ≤ maxMatches.toNat →
        slots.map UInt32.toNat = rowsOf (rows.map Prod.fst) key)
  probe : ∀ key, ∃ found, volvecHtProbe ht key (volvecHashKey key) = some found ∧
    found = (rowsOf (rows.map Prod.fst) key).head?.bind (fun i => ht.payloads[i]?) ∧
    (found.isSome = true ↔ key ∈ rows.map Prod.fst)
  mightContain : ∀ key, ∃ answer, volvecBloomMightContain bloom key = some answer ∧
    (key ∈ rows.map Prod.fst → answer = true)

/-- **The tables of `n` entries keep their promise**: the search for their size ends, and up to
`n` inserts end inside of what was allocated and are found again. -/
def KeepsPromise (grants : Nat → Bool) (n : UInt32) : Prop :=
  (∃ fuel, (volvecHtCapacity fuel n).isSome = true) ∧
    ∀ ht bloom, Initialised grants n ht bloom →
      ∀ rows : List (UInt64 × UInt64), rows.length ≤ n.toNat →
        ∃ fuel ht' bloom', insertAll fuel ht bloom rows = some (ht', bloom') ∧
          Serves ht' bloom' rows

/-- **A run of inserts**: every one of them ends inside of the tables. -/
theorem insertAll_spec {k : Nat} {ht : VecLinearProbeHT} {done : List (UInt64 × UInt64)}
    (hht : Holds n k ht done) (hbloom : FilterOf n bloom) (hn : Small n) (hfit : WordsFit n)
    (hbits : ∀ key ∈ done.map Prod.fst, HasBits bloom key (hashes bloom))
    (rows : List (UInt64 × UInt64)) (hroom : done.length + rows.length ≤ n.toNat) {fuel : Nat}
    (hfuel : 2 ^ k < fuel) :
    ∃ ht' bloom', insertAll fuel ht bloom rows = some (ht', bloom') ∧
      Holds n k ht' (done ++ rows) ∧ FilterOf n bloom' ∧
      ∀ key ∈ (done ++ rows).map Prod.fst, HasBits bloom' key (hashes bloom') := by
  induction rows generalizing done ht bloom with
  | nil =>
    rw [List.append_nil]
    exact ⟨ht, bloom, rfl, hht, hbloom, hbits⟩
  | cons row rows ih =>
    rw [List.length_cons] at hroom
    obtain ⟨ht₁, hinsert, hht₁⟩ := volvecHtInsert_spec hht (by omega) hfuel row.1 row.2
    obtain ⟨bloom₁, hmark, hbloom₁, hnew, hkept⟩ := volvecBloomInsert_spec hbloom hn hfit row.1
    obtain ⟨ht₂, bloom₂, hrun, hht₂, hbloom₂, hall⟩ := ih hht₁ hbloom₁
      (by
        intro key hkey
        rw [List.map_append, List.mem_append] at hkey
        rcases hkey with hold | hrow
        · exact hkept key (hbits key hold)
        · obtain rfl := List.mem_singleton.1 hrow
          exact hnew)
      (by rw [List.length_append, List.length_singleton]; omega)
    rw [List.append_assoc] at hht₂ hall
    refine ⟨ht₂, bloom₂, ?_, hht₂, hbloom₂, hall⟩
    rw [insertAll, hinsert, Option.bind_eq_bind, Option.bind_some, hmark, Option.bind_eq_bind,
      Option.bind_some, hrun]

/-- **The tables answer for their entries.** -/
theorem serves_of_holds {k : Nat} {ht : VecLinearProbeHT} {rows : List (UInt64 × UInt64)}
    (hht : Holds n k ht rows) (hlength : rows.length ≤ n.toNat) (hbloom : FilterOf n bloom)
    (hn : Small n) (hfit : WordsFit n)
    (hbits : ∀ key ∈ rows.map Prod.fst, HasBits bloom key (hashes bloom)) :
    Serves ht bloom rows := by
  have hs := hht.sized
  have hwalk : ∀ key, ∃ last < 2 ^ k, FirstEmpty (path (2 ^ k)) (slotTable ht) key last := by
    intro key
    refine hht.slots.exists_firstEmpty (path_injective _ key) ?_
    rw [List.length_map]
    exact Nat.lt_of_le_of_lt hlength hs.room
  refine ⟨hht.stored, fun key maxMatches => ?_, fun key => ?_, fun key => ?_⟩
  · obtain ⟨last, hlast, hfirst⟩ := hwalk key
    obtain ⟨slots, hrun, hall⟩ := probeAllLoop_spec hht hfirst maxMatches ht.capacity.toNat 0 []
      (home_toNat hs key) (Nat.zero_le _) (by rw [hs.capacity]; omega)
    rw [hht.slots.walk_eq (path_injective _ key) hfirst hlast] at hall
    exact ⟨slots, hrun, fun hroom => hall (by rw [List.length_nil, Nat.zero_add]; exact hroom)⟩
  · obtain ⟨last, hlast, hfirst⟩ := hwalk key
    obtain ⟨found, hrun, hfound⟩ := probeLoop_spec hht hfirst ht.capacity.toNat 0
      (home_toNat hs key) (Nat.zero_le _) (by rw [hs.capacity]; omega)
    rw [hht.slots.walk_eq (path_injective _ key) hfirst hlast] at hfound
    refine ⟨found, hrun, hfound, ?_⟩
    rw [hfound]
    cases hmatches : rowsOf (rows.map Prod.fst) key with
    | nil =>
      refine ⟨nofun, fun hkey => ?_⟩
      obtain ⟨i, hi⟩ := List.mem_iff_getElem?.1 hkey
      have hmem := mem_rowsOf.2 hi
      rw [hmatches] at hmem
      cases hmem
    | cons i matches' =>
      have hi := mem_rowsOf.1 (hmatches ▸ List.mem_cons_self)
      refine ⟨fun _ => List.mem_iff_getElem?.2 ⟨i, hi⟩, fun _ => ?_⟩
      rw [List.getElem?_map, Option.map_eq_some_iff] at hi
      obtain ⟨row, hrow, -⟩ := hi
      rw [List.head?_cons, Option.bind_some, hht.stored i row hrow]
      rfl
  · obtain ⟨answer, hrun, htrue⟩ := mightContain_spec hbloom hn hfit key (hashes bloom)
      hbloom.hashes_lt
    exact ⟨answer, hrun, fun hkey => htrue (hbits key hkey)⟩

/-- Nothing comes of an insert that reaches outside of the filter. -/
theorem insertAll_outside {key : UInt64} (h : volvecBloomInsert bloom key = none) (fuel : Nat)
    (ht : VecLinearProbeHT) (payload : UInt64) : insertAll fuel ht bloom [(key, payload)] = none := by
  rw [insertAll]
  cases volvecHtInsert fuel ht key payload with
  | none => rfl
  | some ht' =>
    show Option.bind (volvecBloomInsert bloom key) _ = none
    rw [h, Option.bind_none]

/-- Without entries no word is cut. -/
theorem wordsFit_zero : WordsFit 0 := .inl rfl

/-- **When the tables keep their promise**: the search for the capacity does not run past the
machine word, and the bits of the filter fill the words that its bytes make up. -/
theorem keepsPromise_iff (grants : Nat → Bool) (hgrants : Limited grants) (n : UInt32) :
    KeepsPromise grants n ↔ (neededSlots n).toNat ≤ 2 ^ 31 ∧
      ((∃ ht bloom, Initialised grants n ht bloom) → WordsFit n) := by
  refine and_congr (capacity_ends_iff n) ⟨?_, ?_⟩
  · rintro hserves ⟨ht, bloom, hinit⟩
    by_contra hfit
    obtain ⟨⟨fuel, hht⟩, hbloom⟩ := id hinit
    obtain ⟨key, hout⟩ := exists_insert_outside (filterOf_init hbloom) (holds_init hgrants hht).1
      hfit
    have hn : 1 ≤ n.toNat := by
      by_contra hzero
      obtain rfl : n = 0 := UInt32.toNat_inj.1 (show n.toNat = 0 by omega)
      exact hfit wordsFit_zero
    obtain ⟨fuel', ht', bloom', hrun, -⟩ := hserves ht bloom hinit [(key, 0)] hn
    rw [insertAll_outside hout] at hrun
    cases hrun
  · intro hfit ht bloom hinit rows hlength
    obtain ⟨⟨fuel, hht⟩, hbloom⟩ := id hinit
    obtain ⟨hn, k, hholds⟩ := holds_init hgrants hht
    have hwords := hfit ⟨ht, bloom, hinit⟩
    obtain ⟨ht', bloom', hrun, hht', hbloom', hbits⟩ := insertAll_spec hholds
      (filterOf_init hbloom) hn hwords nofun rows (by rw [List.length_nil]; omega)
      (Nat.lt_succ_self (2 ^ k))
    exact ⟨_, ht', bloom', hrun, serves_of_holds hht' hlength hbloom' hn hwords hbits⟩

/-- The allocator with memory for every request up to its limit. -/
def allocSizeIsValid (size : Nat) : Bool := decide (size ≤ MaxAllocSize)

theorem allocSizeIsValid_limited : Limited allocSizeIsValid := fun _ h => of_decide_eq_true h

theorem keepsPromise_iff_seven :
    KeepsPromise allocSizeIsValid 7 ↔ (neededSlots 7).toNat ≤ 2 ^ 31 ∧
      ((∃ ht bloom, Initialised allocSizeIsValid 7 ht bloom) → WordsFit 7) :=
  keepsPromise_iff allocSizeIsValid allocSizeIsValid_limited 7

/-- A filter of seven entries has seventy bits in nine bytes, and the first bit of key two is in
the second word. -/
theorem not_keepsPromise_seven : ¬ KeepsPromise allocSizeIsValid 7 := by
  intro hkeeps
  obtain ⟨ht, hht⟩ : ∃ ht, volvecHtInit allocSizeIsValid 5 7 = some ht :=
    Option.isSome_iff_exists.1 (by decide)
  obtain ⟨bloom, hbloom, hout⟩ : ∃ bloom, volvecBloomInit allocSizeIsValid 7 = some bloom ∧
      (volvecBloomInsert bloom 2).isNone = true :=
    (Option.any_eq_true (fun bloom => (volvecBloomInsert bloom 2).isNone) _).1 (by decide)
  obtain ⟨fuel, ht', bloom', hrun, -⟩ := hkeeps.2 ht bloom ⟨⟨5, hht⟩, hbloom⟩ [(2, 0)] (by decide)
  rw [insertAll_outside (Option.isNone_iff_eq_none.1 hout)] at hrun
  cases hrun

end LinearProbeTables
end PgYaap
