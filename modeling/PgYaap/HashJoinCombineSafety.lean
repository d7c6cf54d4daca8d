import Mathlib
import PgYaap.HashJoinCombine
import PgYaap.LinkedChain

/-! # The combined hash table is well formed

Once `combine_prepare_state` is `2`, the registry gives every worker the range
that starts at the number of rows of the workers before it, so the ranges are
disjoint and no two workers write the same slot. The bucket chains are followed
through the links as they will be: a row whose head exchange has happened but
whose link store is still pending already has its next row, the old head the
worker carries. Under this reading every exchange prepends a fresh row to the
chain of its bucket, and every store changes nothing. -/
namespace PgYaap
namespace HashJoinCombine

/-- A power of two in 32 bits passes the capacity check. -/
theorem validCapacity_two_pow {k : Nat} (hk : k < 32) : validCapacity (UInt32.ofNat (2 ^ k)) := by
  interval_cases k <;> decide

theorem two_pow_shiftLeft {k : Nat} (hk : k < 32) :
    UInt32.ofNat (2 ^ k) <<< 1 = UInt32.ofNat (2 ^ (k + 1)) := by
  interval_cases k <;> decide

/-- A capacity the loop arrives at is a power of two. -/
theorem computeHashTableCapacityLoop_valid {rowCount : UInt32} (fuel : Nat) :
    ∀ (k : Nat) (capacity : UInt32), k ≤ 32 → (k = 32 → rowCount * 2 ≠ 0) →
      computeHashTableCapacityLoop rowCount fuel (UInt32.ofNat (2 ^ k)) = some capacity →
      validCapacity capacity := by
  induction fuel with
  | zero => intro k capacity _ _ h; cases h
  | succ fuel ih =>
    intro k capacity hk hnz h
    rw [computeHashTableCapacityLoop] at h
    by_cases h32 : k = 32
    · subst h32
      -- a capacity shifted out to zero is below every nonzero bound, forever
      have hlt : UInt32.ofNat (2 ^ 32) < rowCount * 2 := by
        have : (rowCount * 2).toNat ≠ 0 := fun h0 => hnz rfl (UInt32.toNat_inj.mp h0)
        rw [UInt32.lt_iff_toNat_lt]
        change 0 < _
        omega
      rw [if_pos hlt] at h
      exact ih 32 capacity le_rfl hnz (by simpa using h)
    · have hk' : k < 32 := by omega
      split at h
      · next hlt =>
        rw [two_pow_shiftLeft hk'] at h
        refine ih (k + 1) capacity (by omega) (fun _ h0 => ?_) h
        rw [h0] at hlt
        exact absurd hlt (by simp)
      · rw [← Option.some.inj h]
        exact validCapacity_two_pow hk'

theorem computeHashTableCapacity_valid {rowCount capacity : UInt32}
    (h : computeHashTableCapacity rowCount = some capacity) : validCapacity capacity :=
  computeHashTableCapacityLoop_valid 33 0 capacity (by decide) (fun h => by cases h) h

/-- Masked by a nonzero capacity minus one, a hash falls inside the table. -/
theorem hashBucket_lt {capacity : UInt32} (h : capacity ≠ 0) (hash : UInt64) :
    hashBucket capacity hash < capacity := by
  have hpos : 0 < capacity.toNat := by
    rcases Nat.eq_zero_or_pos capacity.toNat with h0 | h0
    · exact absurd (UInt32.toNat_inj.mp h0) h
    · exact h0
  have hsub : (capacity - 1).toNat = capacity.toNat - 1 := by
    have hle : (1 : UInt32) ≤ capacity := UInt32.le_iff_toNat_le.mpr hpos
    rw [UInt32.toNat_sub_of_le _ _ hle]; rfl
  rw [UInt32.lt_iff_toNat_lt, hashBucket, UInt32.toNat_and, hsub]
  have := Nat.and_le_right (n := hash.toUInt32.toNat) (m := capacity.toNat - 1)
  omega

section Ranges
variable {n : Nat} {Key Payload : Type} (b : Build n Key Payload)

/-- The number of rows of a worker. -/
def Build.len (w : Fin n) : Nat := (b.locals w).keys.length

/-- The number of rows of the workers before slot `k`. -/
def Build.rowOffset : Nat → Nat
  | 0 => 0
  | k + 1 => rowOffset k + if h : k < n then b.len ⟨k, h⟩ else 0

/-- The global slot that belongs to a worker's row. -/
def Build.slotOf (w : Fin n) (i : Nat) : UInt32 := UInt32.ofNat (b.rowOffset w + i)

variable {b}

theorem Build.rowOffset_succ (w : Fin n) : b.rowOffset (w + 1) = b.rowOffset w + b.len w := by
  simp [Build.rowOffset, w.isLt]

theorem Build.rowOffset_mono {j k : Nat} (h : j ≤ k) : b.rowOffset j ≤ b.rowOffset k := by
  induction h with
  | refl => exact le_rfl
  | step _ ih => exact ih.trans (Nat.le_add_right _ _)

/-- The rows of a worker end before the rows of the next one begin. -/
theorem Build.rowOffset_add_len_le {w : Fin n} {k : Nat} (h : w < k) :
    b.rowOffset w + b.len w ≤ b.rowOffset k := by
  rw [← Build.rowOffset_succ]
  exact Build.rowOffset_mono h

/-- No two rows share a slot number. -/
theorem Build.row_unique {w v : Fin n} {i j : Nat} (hi : i < b.len w) (hj : j < b.len v)
    (h : b.rowOffset w + i = b.rowOffset v + j) : w = v ∧ i = j := by
  rcases Nat.lt_trichotomy w v with hlt | heq | hgt
  · have := b.rowOffset_add_len_le hlt
    omega
  · obtain rfl := Fin.ext heq
    exact ⟨rfl, by omega⟩
  · have := b.rowOffset_add_len_le hgt
    omega

section Bounded
variable (hmax : b.rowOffset n ≤ 0xFFFFFFFF)
include hmax

theorem Build.slot_toNat {w : Fin n} {i : Nat} (hi : i < b.len w) :
    (b.slotOf w i).toNat = b.rowOffset w + i := by
  have := b.rowOffset_add_len_le w.isLt
  rw [Build.slotOf, UInt32.toNat_ofNat', Nat.mod_eq_of_lt (by omega)]

theorem Build.slotOf_inj {w v : Fin n} {i j : Nat} (hi : i < b.len w) (hj : j < b.len v)
    (h : b.slotOf w i = b.slotOf v j) : w = v ∧ i = j := by
  refine b.row_unique hi hj ?_
  rw [← Build.slot_toNat hmax hi, ← Build.slot_toNat hmax hj, h]

theorem Build.slotOf_ne_invalidRow {w : Fin n} {i : Nat} (hi : i < b.len w) :
    b.slotOf w i ≠ invalidRow := by
  intro h
  have hnat := Build.slot_toNat hmax hi
  have := b.rowOffset_add_len_le w.isLt
  rw [h] at hnat
  change 0xFFFFFFFF = _ at hnat
  omega

end Bounded
end Ranges

section Arrays
variable {n : Nat} {Key Payload : Type} {b : Build n Key Payload} {α : Type}

/-- An array holds what it should in the first `count w` slots of every worker. -/
def Holds (b : Build n Key Payload) (arr : UInt32 → α) (count : Fin n → Nat)
    (val : Fin n → Nat → α → Prop) : Prop :=
  ∀ w i, i < count w → val w i (arr (b.slotOf w i))

theorem Holds.mono {arr : UInt32 → α} {count count' : Fin n → Nat}
    {val : Fin n → Nat → α → Prop} (h : Holds b arr count val)
    (hle : ∀ w, count' w ≤ count w) : Holds b arr count' val :=
  fun w i hi => h w i (hi.trans_le (hle w))

/-- Writing one more row of one worker. -/
theorem Holds.push {arr : UInt32 → α} {count count' : Fin n → Nat}
    {val : Fin n → Nat → α → Prop} (h : Holds b arr count val)
    (hmax : b.rowOffset n ≤ 0xFFFFFFFF) {w : Fin n} {i : Nat} {x : α} (hi : i < b.len w)
    (hlen : ∀ v, count' v ≤ b.len v)
    (hcount : ∀ v j, j < count' v → j < count v ∨ (v = w ∧ j = i)) (hx : val w i x) :
    Holds b (Function.update arr (b.slotOf w i) x) count' val := by
  intro v j hj
  by_cases hsame : v = w ∧ j = i
  · obtain ⟨rfl, rfl⟩ := hsame
    rw [Function.update_self]; exact hx
  · have hne : b.slotOf v j ≠ b.slotOf w i := fun heq =>
      hsame (b.slotOf_inj hmax (hj.trans_le (hlen v)) hi heq)
    rw [Function.update_of_ne hne]
    exact h v j ((hcount v j hj).resolve_right hsame)

end Arrays

section Progress

/-- How many rows a worker has copied into the global key table. -/
def Pc.copied (len : Nat) : Pc → Nat
  | .copying i => i
  | .hashing _ | .linking _ | .storing _ _ | .copyingRows _ | .mapping _ | .done => len
  | _ => 0

/-- How many buckets and salts a worker has computed. -/
def Pc.hashed (len : Nat) : Pc → Nat
  | .hashing i => i
  | .linking _ | .storing _ _ | .copyingRows _ | .mapping _ | .done => len
  | _ => 0

/-- How many rows a worker has exchanged into a bucket head. -/
def Pc.linked (len : Nat) : Pc → Nat
  | .linking i => i
  | .storing i _ => i + 1
  | .copyingRows _ | .mapping _ | .done => len
  | _ => 0

/-- How many links a worker has stored. -/
def Pc.stored (len : Nat) : Pc → Nat
  | .linking i | .storing i _ => i
  | .copyingRows _ | .mapping _ | .done => len
  | _ => 0

/-- How many payload rows a worker has copied. -/
def Pc.rowsCopied (len : Nat) : Pc → Nat
  | .copyingRows i => i
  | .done => len
  | _ => 0

/-- How many rows a worker has entered into the row mapping. -/
def Pc.mapped (len : Nat) : Pc → Nat
  | .mapping i => i
  | .done => len
  | _ => 0

/-- The worker that won the compare-and-swap, before it publishes the ranges. -/
def Pc.Preparing : Pc → Prop
  | .ranging _ _ | .allocating _ | .publishing => True
  | _ => False

/-- A worker that is past `PrepareHashJoinCombine`. -/
def Pc.Combining : Pc → Prop
  | .copying _ | .hashing _ | .linking _ | .storing _ _ | .copyingRows _ | .mapping _
  | .done => True
  | _ => False

end Progress

section Invariant
variable {n : Nat} {Key Payload : Type} (b : Build n Key Payload)

/-- The bucket of a worker's row. -/
def Build.HasBucket (capacity : UInt32) (w : Fin n) (i : Nat) (x : UInt32) : Prop :=
  ∃ key, (b.locals w).keys[i]? = some key ∧ hashBucket capacity (b.hash key) = x

/-- The registry entry `PrepareHashJoinCombine` computes for a worker. -/
def Build.entry (w : Fin n) : RegistryEntry :=
  ⟨(b.locals w).rowCount, UInt32.ofNat (b.rowOffset w)⟩

/-- What the winner of the compare-and-swap has established when it publishes. -/
structure Prepared (s : SharedPayload Key Payload) : Prop where
  registry : ∀ w : Fin n, s.registry w = b.entry w
  total_le : b.rowOffset n ≤ 0xFFFFFFFF
  capacity : 0 < b.rowOffset n → validCapacity s.hashTableCapacity
  no_capacity : b.rowOffset n = 0 → s.hashTableCapacity = 0

/-- Bounds on the loop variables, and what the winner knows on its way. -/
def PcOk (s : SharedPayload Key Payload) (w : Fin n) : Pc → Prop
  | .ranging slot total => slot ≤ n ∧ total = b.rowOffset slot ∧
      ∀ v : Fin n, v < slot → s.registry v = b.entry v
  | .allocating total => total = b.rowOffset n ∧ ∀ v : Fin n, s.registry v = b.entry v
  | .publishing => Prepared b s ∧ (0 < b.rowOffset n → ∀ x, s.hashTable x = invalidRow)
  | .copying i | .hashing i | .linking i => i ≤ b.len w
  | .storing i _ => i < b.len w
  | .copyingRows i => i ≤ b.len w ∧ b.mode = .ownRows
  | .mapping i => i ≤ b.len w ∧ b.mode = .sharedLocal
  | _ => True

/-- Every bucket holds a chain of exactly the rows of that bucket whose head
exchange has happened, where `next` is the link a row has or is about to get. -/
structure Chained (s : SharedPayload Key Payload) (pc : Fin n → Pc) (next : UInt32 → UInt32) :
    Prop where
  stored : Holds b s.hashLinks (fun w => (pc w).stored (b.len w))
    (fun w i x => x = next (b.slotOf w i))
  pending : ∀ w i old, pc w = .storing i old → old = next (b.slotOf w i)
  chain : ∀ x, ∃ l, LinkedChain invalidRow next (s.hashTable x) l ∧
    ∀ g, g ∈ l ↔ ∃ w i, i < (pc w).linked (b.len w) ∧ b.slotOf w i = g ∧
      b.HasBucket s.hashTableCapacity w i x

/-- What the shared arrays hold after the ranges were published. -/
structure Data (s : SharedPayload Key Payload) (pc : Fin n → Pc) : Prop where
  keys : Holds b s.buildKeys (fun w => (pc w).copied (b.len w))
    (fun w i x => x = (b.locals w).keys[i]?)
  buckets : Holds b s.hashBuckets (fun w => (pc w).hashed (b.len w))
    (fun w i x => b.HasBucket s.hashTableCapacity w i x)
  salts : Holds b s.hashSalts (fun w => (pc w).hashed (b.len w))
    (fun w i x => ∃ key, (b.locals w).keys[i]? = some key ∧ x = hashJoinSalt (b.hash key))
  chains : 0 < b.rowOffset n → ∃ next, Chained b s pc next
  rows : b.mode = .ownRows → Holds b s.buildRows (fun w => (pc w).rowsCopied (b.len w))
    (fun w i x => x = (b.locals w).rows[i]?)
  slots : b.mode = .sharedLocal → Holds b s.buildRowSlots (fun w => (pc w).mapped (b.len w))
    (fun w _ x => x = UInt32.ofNat w)
  localIdxs : b.mode = .sharedLocal →
    Holds b s.buildRowLocalIdxs (fun w => (pc w).mapped (b.len w)) (fun _ i x => x = UInt32.ofNat i)

/-- **The combine invariant.** -/
structure Inv (c : Config n Key Payload) : Prop where
  idle : c.shared.combinePrepareState = 0 → ∀ w, c.pc w = .start
  state_one : ∀ w, (c.pc w).Preparing → c.shared.combinePrepareState = 1
  one_winner : ∀ w v, (c.pc w).Preparing → (c.pc v).Preparing → w = v
  state_two : ∀ w, (c.pc w).Combining → c.shared.combinePrepareState = 2
  pcOk : ∀ w, PcOk b c.shared w (c.pc w)
  prepared : c.shared.combinePrepareState = 2 → Prepared b c.shared
  data : c.shared.combinePrepareState = 2 → Data b c.shared c.pc

end Invariant

section DataSteps
variable {n : Nat} {Key Payload : Type} {b : Build n Key Payload}
  {s : SharedPayload Key Payload} {pc : Fin n → Pc} {w : Fin n} {i : Nat}

/-- Counters of all workers after worker `w` moved. -/
theorem counter_le {f : Nat → Pc → Nat} {p : Pc} (hw : f (b.len w) p ≤ f (b.len w) (pc w)) :
    ∀ v, f (b.len v) (Function.update pc w p v) ≤ f (b.len v) (pc v) :=
  (Function.forall_update_iff pc (p := fun v q => f (b.len v) q ≤ f (b.len v) (pc v))).mpr
    ⟨hw, fun _ _ => le_rfl⟩

/-- A worker that counts one more row counts nothing else anew. -/
theorem counter_push {f : Nat → Pc → Nat} {p : Pc} (hold : f (b.len w) (pc w) = i)
    (hnew : f (b.len w) p = i + 1) :
    ∀ v j, j < f (b.len v) (Function.update pc w p v) → j < f (b.len v) (pc v) ∨ (v = w ∧ j = i) := by
  intro v j hj
  rcases eq_or_ne v w with rfl | hv
  · rw [Function.update_self, hnew] at hj
    rw [hold]
    omega
  · rw [Function.update_of_ne hv] at hj
    exact Or.inl hj

/-- The chains do not change when a worker exchanges no head and stores no link. -/
theorem Data.chains_goto (h : Data b s pc) {p : Pc} {s' : SharedPayload Key Payload}
    (hlinked : p.linked (b.len w) = (pc w).linked (b.len w))
    (hstored : p.stored (b.len w) ≤ (pc w).stored (b.len w))
    (hpending : ∀ i old, p ≠ .storing i old)
    (hlinks : s'.hashLinks = s.hashLinks) (htable : s'.hashTable = s.hashTable)
    (hcapacity : s'.hashTableCapacity = s.hashTableCapacity) :
    0 < b.rowOffset n → ∃ next, Chained b s' (Function.update pc w p) next := by
  intro hpos
  obtain ⟨next, hc⟩ := h.chains hpos
  have hsame : ∀ v, (Function.update pc w p v).linked (b.len v) = (pc v).linked (b.len v) :=
    (Function.forall_update_iff pc
      (p := fun v q => q.linked (b.len v) = (pc v).linked (b.len v))).mpr
      ⟨hlinked, fun _ _ => rfl⟩
  refine ⟨next, ?_, fun v i old hv => ?_, fun x => ?_⟩
  · rw [hlinks]
    exact hc.stored.mono (counter_le hstored)
  · rcases eq_or_ne v w with rfl | hne
    · rw [Function.update_self] at hv
      exact absurd hv (hpending i old)
    · rw [Function.update_of_ne hne] at hv
      exact hc.pending v i old hv
  · obtain ⟨l, hl, hmem⟩ := hc.chain x
    rw [htable, hcapacity]
    refine ⟨l, hl, fun g => (hmem g).trans ?_⟩
    simp only [hsame]

/-- A move of one worker that counts no new row, keeps the exchanged rows and
leaves no link pending has no effect on the data. -/
theorem Data.goto (h : Data b s pc) {p : Pc}
    (hcopied : p.copied (b.len w) ≤ (pc w).copied (b.len w))
    (hhashed : p.hashed (b.len w) ≤ (pc w).hashed (b.len w))
    (hlinked : p.linked (b.len w) = (pc w).linked (b.len w))
    (hstored : p.stored (b.len w) ≤ (pc w).stored (b.len w))
    (hpending : ∀ i old, p ≠ .storing i old)
    (hrows : b.mode = .ownRows → p.rowsCopied (b.len w) ≤ (pc w).rowsCopied (b.len w))
    (hmapped : b.mode = .sharedLocal → p.mapped (b.len w) ≤ (pc w).mapped (b.len w)) :
    Data b s (Function.update pc w p) where
  keys := h.keys.mono (counter_le hcopied)
  buckets := h.buckets.mono (counter_le hhashed)
  salts := h.salts.mono (counter_le hhashed)
  chains := h.chains_goto hlinked hstored hpending rfl rfl rfl
  rows hm := (h.rows hm).mono (counter_le (hrows hm))
  slots hm := (h.slots hm).mono (counter_le (hmapped hm))
  localIdxs hm := (h.localIdxs hm).mono (counter_le (hmapped hm))

/-- No worker counts more rows than it has. -/
theorem PcOk.counters_le {p : Pc} (h : PcOk b s w p) :
    p.copied (b.len w) ≤ b.len w ∧ p.hashed (b.len w) ≤ b.len w ∧
      p.linked (b.len w) ≤ b.len w ∧ p.stored (b.len w) ≤ b.len w ∧
      p.rowsCopied (b.len w) ≤ b.len w ∧ p.mapped (b.len w) ≤ b.len w := by
  cases p <;> simp only [PcOk, Pc.copied, Pc.hashed, Pc.linked, Pc.stored, Pc.rowsCopied,
    Pc.mapped] at h ⊢ <;> omega

variable (hok : ∀ v, PcOk b s v (pc v)) (hmax : b.rowOffset n ≤ 0xFFFFFFFF)
include hok hmax

/-- The head exchange prepends the row to the chain of its bucket. -/
theorem Data.exchange (h : Data b s pc) (hpc : pc w = .linking i) (hi : i < b.len w)
    {x : UInt32} (hx : s.hashBuckets (b.slotOf w i) = x) :
    Data b { s with hashTable := Function.update s.hashTable x (b.slotOf w i) }
      (Function.update pc w (.storing i (s.hashTable x))) := by
  have hbucket := h.buckets w i (by simp only [hpc]; exact hi)
  rw [hx] at hbucket
  have hcount : ∀ {f : Nat → Pc → Nat}, f (b.len w) (.storing i (s.hashTable x)) ≤
      f (b.len w) (.linking i) → ∀ v,
      f (b.len v) (Function.update pc w (.storing i (s.hashTable x)) v) ≤ f (b.len v) (pc v) :=
    fun hf => counter_le (by rw [hpc]; exact hf)
  refine
    { keys := h.keys.mono (hcount (f := Pc.copied) le_rfl)
      buckets := h.buckets.mono (hcount (f := Pc.hashed) le_rfl)
      salts := h.salts.mono (hcount (f := Pc.hashed) le_rfl)
      chains := fun hpos => ?_
      rows := fun hm => (h.rows hm).mono (hcount (f := Pc.rowsCopied) le_rfl)
      slots := fun hm => (h.slots hm).mono (hcount (f := Pc.mapped) le_rfl)
      localIdxs := fun hm => (h.localIdxs hm).mono (hcount (f := Pc.mapped) le_rfl) }
  obtain ⟨next, hc⟩ := h.chains hpos
  have hfresh : ∀ v j, j < (pc v).linked (b.len v) → b.slotOf v j ≠ b.slotOf w i := by
    intro v j hj heq
    have hjlen := hj.trans_le (hok v).counters_le.2.2.1
    obtain ⟨rfl, rfl⟩ := b.slotOf_inj hmax hjlen hi heq
    rw [hpc] at hj
    exact Nat.lt_irrefl _ hj
  have hlinked : ∀ v j, j < (Function.update pc w (.storing i (s.hashTable x)) v).linked (b.len v) ↔
      j < (pc v).linked (b.len v) ∨ (v = w ∧ j = i) := by
    intro v j
    rcases eq_or_ne v w with rfl | hv
    · rw [Function.update_self, hpc]
      simp only [Pc.linked, true_and]
      omega
    · simp [hv]
  refine ⟨Function.update next (b.slotOf w i) (s.hashTable x), ?_, ?_, ?_⟩
  · intro v j hj
    have hj' : j < (pc v).stored (b.len v) := hj.trans_le (hcount (f := Pc.stored) le_rfl v)
    have hle : (pc v).stored (b.len v) ≤ (pc v).linked (b.len v) := by
      cases pc v <;> simp [Pc.stored, Pc.linked]
    rw [Function.update_of_ne (hfresh v j (hj'.trans_le hle))]
    exact hc.stored v j hj'
  · intro v j old hv
    rcases eq_or_ne v w with rfl | hne
    · rw [Function.update_self] at hv
      cases hv
      rw [Function.update_self]
    · rw [Function.update_of_ne hne] at hv
      have hj : j < (pc v).linked (b.len v) := by rw [hv]; exact Nat.lt_succ_self j
      rw [Function.update_of_ne (hfresh v j hj)]
      exact hc.pending v j old hv
  · intro y
    obtain ⟨l, hl, hmem⟩ := hc.chain y
    have hnotin : b.slotOf w i ∉ l := by
      intro hin
      obtain ⟨v, j, hj, hslot, _⟩ := (hmem _).mp hin
      exact hfresh v j hj hslot
    rcases eq_or_ne y x with rfl | hy
    · refine ⟨b.slotOf w i :: l, ?_, fun g => ?_⟩
      · simp only [Function.update_self]
        exact hl.push (b.slotOf_ne_invalidRow hmax hi) hnotin
      · rw [List.mem_cons, hmem]
        constructor
        · rintro (rfl | ⟨v, j, hj, hslot, hb⟩)
          · exact ⟨w, i, (hlinked w i).mpr (Or.inr ⟨rfl, rfl⟩), rfl, hbucket⟩
          · exact ⟨v, j, (hlinked v j).mpr (Or.inl hj), hslot, hb⟩
        · rintro ⟨v, j, hj, hslot, hb⟩
          rcases (hlinked v j).mp hj with hj | ⟨rfl, rfl⟩
          · exact Or.inr ⟨v, j, hj, hslot, hb⟩
          · exact Or.inl hslot.symm
    · refine ⟨l, ?_, fun g => ?_⟩
      · simp only [Function.update_of_ne hy]
        exact hl.update hnotin
      · rw [hmem]
        constructor
        · rintro ⟨v, j, hj, hslot, hb⟩
          exact ⟨v, j, (hlinked v j).mpr (Or.inl hj), hslot, hb⟩
        · rintro ⟨v, j, hj, hslot, hb⟩
          rcases (hlinked v j).mp hj with hj | ⟨rfl, rfl⟩
          · exact ⟨v, j, hj, hslot, hb⟩
          · -- the row just exchanged belongs to bucket `x`, not to `y`
            obtain ⟨key, hkey, rfl⟩ := hb
            obtain ⟨key', hkey', hx⟩ := hbucket
            rw [hkey] at hkey'
            cases hkey'
            exact absurd hx hy

omit hok in
/-- The link store makes the pending link permanent. -/
theorem Data.store (h : Data b s pc) {old : UInt32} (hpc : pc w = .storing i old)
    (hi : i < b.len w) (hlen : ∀ v, PcOk b s v (Function.update pc w (.linking (i + 1)) v)) :
    Data b { s with hashLinks := Function.update s.hashLinks (b.slotOf w i) old }
      (Function.update pc w (.linking (i + 1))) := by
  have hcount : ∀ {f : Nat → Pc → Nat}, f (b.len w) (.linking (i + 1)) ≤
      f (b.len w) (.storing i old) → ∀ v,
      f (b.len v) (Function.update pc w (.linking (i + 1)) v) ≤ f (b.len v) (pc v) :=
    fun hf => counter_le (by rw [hpc]; exact hf)
  refine
    { keys := h.keys.mono (hcount (f := Pc.copied) le_rfl)
      buckets := h.buckets.mono (hcount (f := Pc.hashed) le_rfl)
      salts := h.salts.mono (hcount (f := Pc.hashed) le_rfl)
      chains := fun hpos => ?_
      rows := fun hm => (h.rows hm).mono (hcount (f := Pc.rowsCopied) le_rfl)
      slots := fun hm => (h.slots hm).mono (hcount (f := Pc.mapped) le_rfl)
      localIdxs := fun hm => (h.localIdxs hm).mono (hcount (f := Pc.mapped) le_rfl) }
  obtain ⟨next, hc⟩ := h.chains hpos
  refine ⟨next, ?_, fun v j old' hv => ?_, fun x => ?_⟩
  · refine hc.stored.push hmax hi (fun v => (hlen v).counters_le.2.2.2.1) ?_
      (hc.pending w i old hpc)
    exact counter_push (f := Pc.stored) (by rw [hpc]; rfl) rfl
  · rcases eq_or_ne v w with rfl | hne
    · rw [Function.update_self] at hv
      cases hv
    · rw [Function.update_of_ne hne] at hv
      exact hc.pending v j old' hv
  · obtain ⟨l, hl, hmem⟩ := hc.chain x
    have hlinked : ∀ v, (Function.update pc w (.linking (i + 1)) v).linked (b.len v) =
        (pc v).linked (b.len v) :=
      (Function.forall_update_iff pc
        (p := fun v q => q.linked (b.len v) = (pc v).linked (b.len v))).mpr
        ⟨by rw [hpc]; rfl, fun _ _ => rfl⟩
    refine ⟨l, hl, fun g => (hmem g).trans ?_⟩
    simp only [hlinked]

end DataSteps

section Steps
variable {n : Nat} {Key Payload : Type} {b : Build n Key Payload} {c : Config n Key Payload}

theorem PcOk.of_not_preparing {s s' : SharedPayload Key Payload} {w : Fin n} {p : Pc}
    (h : PcOk b s w p) (hp : ¬ p.Preparing) : PcOk b s' w p := by
  cases p with
  | ranging | allocating | publishing => exact absurd trivial hp
  | _ => exact h

/-- A step of the winner before it publishes. -/
theorem Inv.prepare (h : Inv b c) {w : Fin n} {p : Pc} {s : SharedPayload Key Payload}
    (hw : (c.pc w).Preparing) (hs : s.combinePrepareState = 1) (hp : ¬ p.Combining)
    (hok : PcOk b s w p) : Inv b (c.act w p s) := by
  have hothers : ∀ v, v ≠ w → ¬ (c.pc v).Preparing := fun v hv hpv => hv (h.one_winner v w hpv hw)
  have h1 := h.state_one w hw
  have hmine : ∀ v, ((c.act w p s).pc v).Preparing → v = w := by
    intro v hv
    by_contra hne
    refine hothers v hne ?_
    simpa [Config.act, hne] using hv
  refine
    { idle := fun h0 => by rw [show (c.act w p s).shared = s from rfl, hs] at h0; cases h0
      state_one := fun _ _ => hs
      one_winner := fun v u hv hu => (hmine v hv).trans (hmine u hu).symm
      state_two := fun v hv => ?_
      pcOk := fun v => ?_
      prepared := fun h2 => by rw [show (c.act w p s).shared = s from rfl, hs] at h2; cases h2
      data := fun h2 => by rw [show (c.act w p s).shared = s from rfl, hs] at h2; cases h2 }
  · rcases eq_or_ne v w with rfl | hne
    · exact absurd (by simpa [Config.act] using hv) hp
    · have h2 := h.state_two v (by simpa [Config.act, hne] using hv)
      rw [h1] at h2
      cases h2
  · rcases eq_or_ne v w with rfl | hne
    · simpa [Config.act] using hok
    · simpa [Config.act, hne] using (h.pcOk v).of_not_preparing (hothers v hne)

/-- A step of any worker after the ranges were published. -/
theorem Inv.combine (h : Inv b c) (h2 : c.shared.combinePrepareState = 2) {w : Fin n} {p : Pc}
    {s : SharedPayload Key Payload} (hs : s.combinePrepareState = 2) (hp : ¬ p.Preparing)
    (hok : PcOk b s w p) (hprepared : Prepared b s) (hdata : Data b s (Function.update c.pc w p)) :
    Inv b (c.act w p s) := by
  have hnone : ∀ v, ¬ ((c.act w p s).pc v).Preparing := by
    intro v hv
    rcases eq_or_ne v w with rfl | hne
    · exact hp (by simpa [Config.act] using hv)
    · have h1 := h.state_one v (by simpa [Config.act, hne] using hv)
      rw [h2] at h1
      cases h1
  refine
    { idle := fun h0 => by rw [show (c.act w p s).shared = s from rfl, hs] at h0; cases h0
      state_one := fun v hv => absurd hv (hnone v)
      one_winner := fun v _ hv => absurd hv (hnone v)
      state_two := fun _ _ => hs
      pcOk := fun v => ?_
      prepared := fun _ => hprepared
      data := fun _ => hdata }
  rcases eq_or_ne v w with rfl | hne
  · simpa [Config.act] using hok
  · have hv : ¬ (c.pc v).Preparing := by simpa [Config.act, hne] using hnone v
    simpa [Config.act, hne] using (h.pcOk v).of_not_preparing hv

/-- When the ranges are published nobody has touched the arrays. -/
theorem data_published {s : SharedPayload Key Payload} {pc : Fin n → Pc}
    (hempty : 0 < b.rowOffset n → ∀ x, s.hashTable x = invalidRow)
    (hpc : ∀ v, ¬ (pc v).Combining ∨ pc v = .copying 0) : Data b s pc := by
  have hzero : ∀ v, (pc v).copied (b.len v) = 0 ∧ (pc v).hashed (b.len v) = 0 ∧
      (pc v).linked (b.len v) = 0 ∧ (pc v).stored (b.len v) = 0 ∧
      (pc v).rowsCopied (b.len v) = 0 ∧ (pc v).mapped (b.len v) = 0 := by
    intro v
    rcases hpc v with hv | hv
    · cases hq : pc v with
      | start | ranging | allocating | publishing | waiting | failed => simp [Pc.copied, Pc.hashed,
          Pc.linked, Pc.stored, Pc.rowsCopied, Pc.mapped]
      | _ => rw [hq] at hv; exact absurd trivial hv
    · rw [hv]; simp [Pc.copied, Pc.hashed, Pc.linked, Pc.stored, Pc.rowsCopied, Pc.mapped]
  have hnone : ∀ {f : Nat → Pc → Nat}, (∀ v, f (b.len v) (pc v) = 0) →
      ∀ {α : Type} {arr : UInt32 → α} {val : Fin n → Nat → α → Prop},
      Holds b arr (fun v => f (b.len v) (pc v)) val := by
    intro f hf α arr val w i hi
    exact absurd (hf w ▸ hi) (Nat.not_lt_zero i)
  exact
    { keys := hnone fun v => (hzero v).1
      buckets := hnone fun v => (hzero v).2.1
      salts := hnone fun v => (hzero v).2.1
      chains := fun hpos => ⟨s.hashLinks, by
        refine ⟨hnone fun v => (hzero v).2.2.2.1, fun v i old hv => ?_, fun x => ⟨[], ?_, ?_⟩⟩
        · have := (hzero v).2.2.1
          rw [hv] at this
          cases this
        · rw [hempty hpos x]; exact .nil
        · intro g
          refine ⟨fun hg => (List.not_mem_nil hg).elim, ?_⟩
          rintro ⟨v, i, hi, _⟩
          rw [(hzero v).2.2.1] at hi
          exact absurd hi (Nat.not_lt_zero i)⟩
      rows := fun _ => hnone fun v => (hzero v).2.2.2.2.1
      slots := fun _ => hnone fun v => (hzero v).2.2.2.2.2
      localIdxs := fun _ => hnone fun v => (hzero v).2.2.2.2.2 }

theorem Prepared.globalRowIdx {s : SharedPayload Key Payload} (h : Prepared b s) (w : Fin n)
    (i : Nat) : globalRowIdx s w i = b.slotOf w i := by
  rw [HashJoinCombine.globalRowIdx, h.registry w, Build.slotOf, UInt32.ofNat_add]
  rfl

theorem rowCount_toNat (w : Fin n) : (b.locals w).rowCount.toNat = b.len w := by
  rw [LocalBuild.rowCount, UInt32.toNat_ofNat', Nat.mod_eq_of_lt (b.locals w).fits]
  rfl

theorem Prepared.inRange_iff {s : SharedPayload Key Payload} (h : Prepared b s) (w : Fin n)
    (i : Nat) : inRange s w i ↔ i < b.len w := by
  rw [inRange, h.registry w, ← rowCount_toNat (b := b) w]
  rfl

/-- A worker that holds no rows yet may move to another such place. -/
theorem Inv.wait (h : Inv b c) (h0 : c.shared.combinePrepareState ≠ 0) {w : Fin n} {p : Pc}
    (hold : c.pc w = .start ∨ c.pc w = .waiting)
    (hnew : p = .waiting ∨ (p = .copying 0 ∧ c.shared.combinePrepareState = 2)) :
    Inv b (c.goto w p) := by
  have hp : ¬ p.Preparing := by
    rcases hnew with rfl | ⟨rfl, _⟩ <;> exact id
  have hpcOk : ∀ s, PcOk b s w p := by
    intro s
    rcases hnew with rfl | ⟨rfl, _⟩
    · trivial
    · exact Nat.zero_le _
  have hpc : ∀ v, v ≠ w → (c.goto w p).pc v = c.pc v := fun v hv => by simp [Config.goto, hv]
  have hself : (c.goto w p).pc w = p := by simp [Config.goto]
  have hother : ∀ v, ((c.goto w p).pc v).Preparing → (c.pc v).Preparing := by
    intro v hv
    rcases eq_or_ne v w with rfl | hne
    · rw [hself] at hv; exact absurd hv hp
    · rwa [hpc v hne] at hv
  exact
    { idle := fun hz => absurd hz h0
      state_one := fun v hv => h.state_one v (hother v hv)
      one_winner := fun v u hv hu => h.one_winner v u (hother v hv) (hother u hu)
      state_two := fun v hv => by
        rcases eq_or_ne v w with rfl | hne
        · rw [hself] at hv
          rcases hnew with rfl | ⟨_, h2⟩
          · exact hv.elim
          · exact h2
        · rw [hpc v hne] at hv
          exact h.state_two v hv
      pcOk := fun v => by
        rcases eq_or_ne v w with rfl | hne
        · rw [hself]; exact hpcOk _
        · rw [hpc v hne]; exact h.pcOk v
      prepared := h.prepared
      data := fun h2 => by
        refine (h.data h2).goto ?_ ?_ ?_ ?_ ?_ ?_ ?_
        all_goals
          rcases hold with hold | hold <;> rcases hnew with rfl | ⟨rfl, _⟩ <;>
            simp [hold, Pc.copied, Pc.hashed, Pc.linked, Pc.stored, Pc.rowsCopied, Pc.mapped] }

/-- The winner ranges over the slots, allocates, and publishes. -/
theorem Inv.run_preparing (h : Inv b c) {w : Fin n} (hw : (c.pc w).Preparing) :
    Inv b (c.run b w) := by
  have h1 := h.state_one w hw
  have hok := h.pcOk w
  cases hpc : c.pc w with
  | ranging slot total =>
    rw [hpc] at hok
    obtain ⟨hle, htotal, hreg⟩ := hok
    simp only [Config.run, hpc]
    split
    · next hlt =>
      refine h.prepare hw h1 id ⟨hlt, ?_, fun v hv => ?_⟩
      · rw [htotal, rowCount_toNat]
        exact (b.rowOffset_succ ⟨slot, hlt⟩).symm
      · rcases Nat.lt_or_eq_of_le (Nat.lt_succ_iff.mp hv) with hv' | hv'
        · simpa [Function.update_of_ne hv'.ne] using hreg v hv'
        · obtain rfl : v = ⟨slot, hlt⟩ := Fin.ext hv'
          simp [Build.entry, htotal]
    · next hge =>
      obtain rfl : slot = n := by omega
      exact h.prepare hw h1 id ⟨htotal, fun v => hreg v v.isLt⟩
  | allocating total =>
    rw [hpc] at hok
    obtain ⟨htotal, hreg⟩ := hok
    simp only [Config.run, hpc]
    split
    · exact h.prepare hw h1 id trivial
    · next hmax =>
      have hmax' : b.rowOffset n ≤ 0xFFFFFFFF := by omega
      split
      · next hzero =>
        refine h.prepare hw h1 id ⟨⟨hreg, hmax', fun hpos => ?_, fun _ => rfl⟩, fun hpos => ?_⟩
        · omega
        · omega
      · next hzero =>
        split
        · exact h
        · next capacity hcap =>
          refine h.prepare hw h1 id ⟨⟨hreg, hmax', fun _ => ?_, fun h0 => ?_⟩, fun _ _ => rfl⟩
          · exact computeHashTableCapacity_valid hcap
          · omega
  | publishing =>
    rw [hpc] at hok
    obtain ⟨hprep, hempty⟩ := hok
    have hrun : c.run b w = c.act w (.copying 0) { c.shared with combinePrepareState := 2 } := by
      simp only [Config.run, hpc]
    have hothers : ∀ v, v ≠ w → ¬ (c.pc v).Combining ∧ ¬ (c.pc v).Preparing := by
      refine fun v hv => ⟨fun hcomb => ?_, fun hpv => hv (h.one_winner v w hpv hw)⟩
      have h2 := h.state_two v hcomb
      rw [h1] at h2
      cases h2
    have hnone : ∀ v, ¬ ((c.run b w).pc v).Preparing := by
      intro v hv
      rw [hrun] at hv
      rcases eq_or_ne v w with rfl | hne
      · simp [Config.act, Pc.Preparing] at hv
      · exact (hothers v hne).2 (by simpa [Config.act, hne] using hv)
    have hprep' : Prepared b { c.shared with combinePrepareState := 2 } :=
      ⟨hprep.registry, hprep.total_le, hprep.capacity, hprep.no_capacity⟩
    refine
      { idle := fun h0 => by rw [hrun] at h0; cases h0
        state_one := fun v hv => absurd hv (hnone v)
        one_winner := fun v _ hv => absurd hv (hnone v)
        state_two := fun v _ => by rw [hrun]; rfl
        pcOk := fun v => ?_
        prepared := fun _ => by rw [hrun]; exact hprep'
        data := fun _ => ?_ }
    · rw [hrun]
      rcases eq_or_ne v w with rfl | hne
      · simp [Config.act, PcOk]
      · simpa [Config.act, hne] using (h.pcOk v).of_not_preparing (hothers v hne).2
    · rw [hrun]
      refine data_published hempty fun v => ?_
      rcases eq_or_ne v w with rfl | hne
      · exact Or.inr (by simp [Config.act])
      · exact Or.inl (by simpa [Config.act, hne] using (hothers v hne).1)
  | _ => rw [hpc] at hw; exact hw.elim

/-- A worker past the preparation copies, hashes and links its rows. -/
theorem Inv.run_combining (h : Inv b c) {w : Fin n} (hw : (c.pc w).Combining) :
    Inv b (c.run b w) := by
  have h2 := h.state_two w hw
  have hprep := h.prepared h2
  have hdata := h.data h2
  have hmax := hprep.total_le
  have hprep' : ∀ {s : SharedPayload Key Payload}, s.registry = c.shared.registry →
      s.hashTableCapacity = c.shared.hashTableCapacity → Prepared b s := fun hr hc =>
    ⟨fun v => by rw [hr]; exact hprep.registry v, hmax,
      fun hpos => by rw [hc]; exact hprep.capacity hpos,
      fun h0 => by rw [hc]; exact hprep.no_capacity h0⟩
  have hlen : ∀ {q : Pc}, PcOk b c.shared w q → ∀ v,
      PcOk b c.shared v (Function.update c.pc w q v) := fun hq =>
    (Function.forall_update_iff c.pc (p := fun v q => PcOk b c.shared v q)).mpr
      ⟨hq, fun v _ => h.pcOk v⟩
  have hok := h.pcOk w
  cases hpc : c.pc w with
  | copying i =>
    rw [hpc] at hok
    simp only [Config.run, hpc, hprep.globalRowIdx]
    split
    · next hi =>
      refine h.combine h2 h2 id hi (hprep' rfl rfl) ?_
      exact
        { keys := hdata.keys.push hmax hi
            (fun v => (hlen (q := .copying (i + 1)) hi v).counters_le.1)
            (counter_push (f := Pc.copied) (by rw [hpc]; rfl) rfl) rfl
          buckets := hdata.buckets.mono (counter_le (by rw [hpc]; exact le_rfl))
          salts := hdata.salts.mono (counter_le (by rw [hpc]; exact le_rfl))
          chains := hdata.chains_goto (by rw [hpc]; rfl) (by rw [hpc]; exact le_rfl) (by simp)
            rfl rfl rfl
          rows := fun hm => (hdata.rows hm).mono (counter_le (by rw [hpc]; exact le_rfl))
          slots := fun hm => (hdata.slots hm).mono (counter_le (by rw [hpc]; exact le_rfl))
          localIdxs := fun hm =>
            (hdata.localIdxs hm).mono (counter_le (by rw [hpc]; exact le_rfl)) }
    · next hi =>
      obtain rfl : i = b.len w := Nat.le_antisymm hok (Nat.le_of_not_lt hi)
      refine h.combine h2 h2 id (Nat.zero_le _) hprep (hdata.goto ?_ ?_ ?_ ?_ (by simp) ?_ ?_)
      all_goals rw [hpc]; simp [Pc.copied, Pc.hashed, Pc.linked, Pc.stored, Pc.rowsCopied, Pc.mapped]
  | hashing i =>
    rw [hpc] at hok
    simp only [Config.run, hpc, hprep.globalRowIdx, hprep.inRange_iff]
    split
    · next hi =>
      have hkey : (b.locals w).keys[i]? = some ((b.locals w).keys[i]) := List.getElem?_eq_getElem hi
      rw [hkey]
      simp only
      split
      · refine h.combine h2 h2 id hi (hprep' rfl rfl) ?_
        have hpush : ∀ v j, j < (Function.update c.pc w (.hashing (i + 1)) v).hashed (b.len v) →
            j < (c.pc v).hashed (b.len v) ∨ (v = w ∧ j = i) :=
          counter_push (f := Pc.hashed) (by rw [hpc]; rfl) rfl
        have hbound := fun v => (hlen (q := .hashing (i + 1)) hi v).counters_le.2.1
        exact
          { keys := hdata.keys.mono (counter_le (by rw [hpc]; exact le_rfl))
            buckets := hdata.buckets.push hmax hi hbound hpush ⟨_, hkey, rfl⟩
            salts := hdata.salts.push hmax hi hbound hpush ⟨_, hkey, rfl⟩
            chains := hdata.chains_goto (by rw [hpc]; rfl) (by rw [hpc]; exact le_rfl) (by simp)
              rfl rfl rfl
            rows := fun hm => (hdata.rows hm).mono (counter_le (by rw [hpc]; exact le_rfl))
            slots := fun hm => (hdata.slots hm).mono (counter_le (by rw [hpc]; exact le_rfl))
            localIdxs := fun hm =>
              (hdata.localIdxs hm).mono (counter_le (by rw [hpc]; exact le_rfl)) }
      · refine h.combine h2 h2 id trivial hprep (hdata.goto ?_ ?_ ?_ ?_ (by simp) ?_ ?_)
        all_goals rw [hpc]
        all_goals simp [Pc.copied, Pc.hashed, Pc.linked, Pc.stored, Pc.rowsCopied, Pc.mapped]
    · next hi =>
      obtain rfl : i = b.len w := Nat.le_antisymm hok (Nat.le_of_not_lt hi)
      refine h.combine h2 h2 id (Nat.zero_le _) hprep (hdata.goto ?_ ?_ ?_ ?_ (by simp) ?_ ?_)
      all_goals rw [hpc]; simp [Pc.copied, Pc.hashed, Pc.linked, Pc.stored, Pc.rowsCopied, Pc.mapped]
  | linking i =>
    rw [hpc] at hok
    simp only [Config.run, hpc, hprep.globalRowIdx, hprep.inRange_iff]
    split
    · next hi =>
      exact h.combine h2 h2 id hi (hprep' rfl rfl) (hdata.exchange h.pcOk hmax hpc hi rfl)
    · next hi =>
      obtain rfl : i = b.len w := Nat.le_antisymm hok (Nat.le_of_not_lt hi)
      -- the loop is over; what the worker does next depends on the payload mode
      refine h.combine h2 h2 ?_ ?_ hprep (hdata.goto ?_ ?_ ?_ ?_ ?_ ?_ ?_)
      all_goals cases hm : b.mode
      all_goals simp [afterLinking, Pc.Preparing, PcOk, hm, hpc, Pc.copied, Pc.hashed, Pc.linked,
        Pc.stored, Pc.rowsCopied, Pc.mapped]
  | storing i old =>
    rw [hpc] at hok
    simp only [Config.run, hpc, hprep.globalRowIdx]
    exact h.combine h2 h2 id hok (hprep' rfl rfl)
      (hdata.store hmax hpc hok (hlen (q := .linking (i + 1)) hok))
  | copyingRows i =>
    rw [hpc] at hok
    obtain ⟨hle, hmode⟩ := hok
    simp only [Config.run, hpc, hprep.globalRowIdx, (b.locals w).sameLength]
    split
    · next hi =>
      refine h.combine h2 h2 id ⟨hi, hmode⟩ (hprep' rfl rfl) ?_
      exact
        { keys := hdata.keys.mono (counter_le (by rw [hpc]; exact le_rfl))
          buckets := hdata.buckets.mono (counter_le (by rw [hpc]; exact le_rfl))
          salts := hdata.salts.mono (counter_le (by rw [hpc]; exact le_rfl))
          chains := hdata.chains_goto (by rw [hpc]; rfl) (by rw [hpc]; exact le_rfl) (by simp)
            rfl rfl rfl
          rows := fun hm => (hdata.rows hm).push hmax hi
            (fun v => (hlen (q := .copyingRows (i + 1)) ⟨hi, hmode⟩ v).counters_le.2.2.2.2.1)
            (counter_push (f := Pc.rowsCopied) (by rw [hpc]; rfl) rfl) rfl
          slots := fun hm => (hdata.slots hm).mono (counter_le (by rw [hpc]; exact le_rfl))
          localIdxs := fun hm =>
            (hdata.localIdxs hm).mono (counter_le (by rw [hpc]; exact le_rfl)) }
    · next hi =>
      obtain rfl : i = b.len w := Nat.le_antisymm hle (Nat.le_of_not_lt hi)
      refine h.combine h2 h2 id trivial hprep (hdata.goto ?_ ?_ ?_ ?_ (by simp) ?_ ?_)
      all_goals rw [hpc]
      all_goals simp [hmode, Pc.copied, Pc.hashed, Pc.linked, Pc.stored, Pc.rowsCopied]
  | mapping i =>
    rw [hpc] at hok
    obtain ⟨hle, hmode⟩ := hok
    simp only [Config.run, hpc, hprep.globalRowIdx, hprep.inRange_iff]
    split
    · next hi =>
      refine h.combine h2 h2 id ⟨hi, hmode⟩ (hprep' rfl rfl) ?_
      have hpush : ∀ v j, j < (Function.update c.pc w (.mapping (i + 1)) v).mapped (b.len v) →
          j < (c.pc v).mapped (b.len v) ∨ (v = w ∧ j = i) :=
        counter_push (f := Pc.mapped) (by rw [hpc]; rfl) rfl
      have hbound := fun v => (hlen (q := .mapping (i + 1)) ⟨hi, hmode⟩ v).counters_le.2.2.2.2.2
      exact
        { keys := hdata.keys.mono (counter_le (by rw [hpc]; exact le_rfl))
          buckets := hdata.buckets.mono (counter_le (by rw [hpc]; exact le_rfl))
          salts := hdata.salts.mono (counter_le (by rw [hpc]; exact le_rfl))
          chains := hdata.chains_goto (by rw [hpc]; rfl) (by rw [hpc]; exact le_rfl) (by simp)
            rfl rfl rfl
          rows := fun hm => (hdata.rows hm).mono (counter_le (by rw [hpc]; exact le_rfl))
          slots := fun hm => (hdata.slots hm).push hmax hi hbound hpush rfl
          localIdxs := fun hm => (hdata.localIdxs hm).push hmax hi hbound hpush rfl }
    · next hi =>
      obtain rfl : i = b.len w := Nat.le_antisymm hle (Nat.le_of_not_lt hi)
      refine h.combine h2 h2 id trivial hprep (hdata.goto ?_ ?_ ?_ ?_ (by simp) ?_ ?_)
      all_goals rw [hpc]
      all_goals simp [hmode, Pc.copied, Pc.hashed, Pc.linked, Pc.stored, Pc.mapped]
  | done =>
    have hrun : c.run b w = c := by simp only [Config.run, hpc]
    rw [hrun]; exact h
  | _ => rw [hpc] at hw; exact hw.elim

/-- A worker that has not started wins the compare-and-swap or starts waiting. -/
theorem Inv.run_start (h : Inv b c) {w : Fin n} (hpc : c.pc w = .start) : Inv b (c.run b w) := by
  simp only [Config.run, hpc]
  split
  · next h0 =>
    have hstart := h.idle h0
    have hnone : ∀ v, v ≠ w → ∀ q s,
        (c.act w q s).pc v = .start := fun v hv q s => by simp [Config.act, hv, hstart v]
    have hself : ∀ q s, (c.act w q s).pc w = q := fun q s => by simp [Config.act]
    refine
      { idle := fun h1 => by cases h1
        state_one := fun _ _ => rfl
        one_winner := fun v u hv hu => ?_
        state_two := fun v hv => ?_
        pcOk := fun v => ?_
        prepared := fun h1 => by cases h1
        data := fun h1 => by cases h1 }
    · have hmine : ∀ x, ((c.act w (.ranging 0 0) { c.shared with combinePrepareState := 1 }).pc
          x).Preparing → x = w := by
        intro x hx
        by_contra hne
        rw [hnone x hne] at hx
        exact hx
      exact (hmine v hv).trans (hmine u hu).symm
    · rcases eq_or_ne v w with rfl | hne
      · rw [hself] at hv; exact hv.elim
      · rw [hnone v hne] at hv; exact hv.elim
    · rcases eq_or_ne v w with rfl | hne
      · rw [hself]; exact ⟨Nat.zero_le _, rfl, fun u hu => absurd hu (Nat.not_lt_zero _)⟩
      · rw [hnone v hne]; trivial
  · next h0 => exact h.wait h0 (Or.inl hpc) (Or.inl rfl)

/-- **Step lemma.** Every step of every worker keeps the invariant. -/
theorem Inv.run (h : Inv b c) (w : Fin n) : Inv b (c.run b w) := by
  cases hpc : c.pc w with
  | start => exact h.run_start hpc
  | ranging | allocating | publishing => exact h.run_preparing (by rw [hpc]; trivial)
  | waiting =>
    simp only [Config.run, hpc]
    split
    · next h2 =>
      exact h.wait (by rw [h2]; decide) (Or.inr hpc) (Or.inr ⟨rfl, h2⟩)
    · exact h
  | copying | hashing | linking | storing | copyingRows | mapping | done =>
    exact h.run_combining (by rw [hpc]; trivial)
  | failed =>
    have hrun : c.run b w = c := by simp only [Config.run, hpc]
    rw [hrun]; exact h

theorem inv_of_reachable (h : (system b).Reachable c) : Inv b c := by
  refine h.invariant (I := Inv b) ?_ ?_
  · rintro c ⟨h0, _, hstart⟩
    exact
      { idle := fun _ => hstart
        state_one := fun w hw => by rw [hstart w] at hw; exact hw.elim
        one_winner := fun w _ hw => by rw [hstart w] at hw; exact hw.elim
        state_two := fun w hw => by rw [hstart w] at hw; exact hw.elim
        pcOk := fun w => by rw [hstart w]; trivial
        prepared := fun h2 => by rw [h0] at h2; cases h2
        data := fun h2 => by rw [h0] at h2; cases h2 }
  · rintro c w c' hinv rfl
    exact hinv.run w

/-- The global row slots of a worker, as its registry entry gives them. -/
def rowRange (s : SharedPayload Key Payload) (w : Fin n) : Set Nat :=
  Set.Ico (s.registry w).globalRowOffset.toNat
    ((s.registry w).globalRowOffset.toNat + (s.registry w).rowCount.toNat)

/-- What the combine event leaves behind for the probe. -/
structure Combined (b : Build n Key Payload) (s : SharedPayload Key Payload) : Prop where
  /-- Every worker got as many slots as it has rows. -/
  range_size : ∀ w : Fin n, (s.registry w).rowCount.toNat = (b.locals w).keys.length
  ranges_disjoint : ∀ w v : Fin n, w ≠ v → Disjoint (rowRange s w) (rowRange s v)
  row_copied : ∀ w i, i < (b.locals w).keys.length →
    s.buildKeys (globalRowIdx s w i) = (b.locals w).keys[i]?
  row_salt : ∀ (w : Fin n) i key, (b.locals w).keys[i]? = some key →
    s.hashSalts (globalRowIdx s w i) = hashJoinSalt (b.hash key)
  /-- Every row is linked in exactly one chain, the one of its own hash. -/
  row_linked : ∀ (w : Fin n) i key, (b.locals w).keys[i]? = some key → ∀ x,
    (x < s.hashTableCapacity ∧ ∃ l, LinkedChain invalidRow s.hashLinks (s.hashTable x) l ∧
      globalRowIdx s w i ∈ l) ↔ x = hashBucket s.hashTableCapacity (b.hash key)
  /-- Every chain is finite, visits no slot twice, ends in `invalidRow` and holds rows only. -/
  chain_ends : ∀ x, x < s.hashTableCapacity → ∃ l,
    LinkedChain invalidRow s.hashLinks (s.hashTable x) l ∧ l.Nodup ∧
      ∀ g ∈ l, ∃ (w : Fin n) (i : Nat), i < (b.locals w).keys.length ∧ g = globalRowIdx s w i

theorem Prepared.ranges_disjoint {s : SharedPayload Key Payload} (h : Prepared b s)
    {w v : Fin n} (hne : w ≠ v) : Disjoint (rowRange s w) (rowRange s v) := by
  have hoff : ∀ u : Fin n, (s.registry u).globalRowOffset.toNat = b.rowOffset u := by
    intro u
    have hle := b.rowOffset_add_len_le u.isLt
    have htotal := h.total_le
    rw [h.registry u]
    change (UInt32.ofNat (b.rowOffset u)).toNat = _
    rw [UInt32.toNat_ofNat', Nat.mod_eq_of_lt (by omega)]
  have hcount : ∀ u : Fin n, (s.registry u).rowCount.toNat = b.len u := fun u => by
    rw [h.registry u]; exact rowCount_toNat u
  rw [Set.disjoint_left]
  intro x hx hx'
  rw [rowRange, Set.mem_Ico, hoff, hcount] at hx hx'
  have hrow := b.row_unique (w := w) (v := v) (i := x - b.rowOffset w) (j := x - b.rowOffset v)
    (by omega) (by omega) (by omega)
  exact hne hrow.1

/-- Without workers nothing happens and the table keeps its capacity of zero. -/
theorem combined_of_no_workers {b : Build 0 Key Payload} {c : Config 0 Key Payload}
    (h : (system b).Reachable c) : Combined b c.shared := by
  have hcap : c.shared.hashTableCapacity = 0 :=
    h.invariant (I := fun c => c.shared.hashTableCapacity = 0) (fun _ (h0 : IsInitial _) => h0.2.1)
      (fun _ w => w.elim0)
  exact
    { range_size := fun w => w.elim0
      ranges_disjoint := fun w => w.elim0
      row_copied := fun w => w.elim0
      row_salt := fun w => w.elim0
      row_linked := fun w => w.elim0
      chain_ends := fun x hx => by rw [hcap] at hx; exact absurd hx (by simp) }

/-- **The combined hash table is well formed.** For any number of workers, any
local build tables and any interleaving, once every worker has combined: the
ranges of the workers are disjoint, every row is linked in exactly one chain,
that of its own hash, and every chain is finite, acyclic and ends. -/
theorem combined_of_done (h : (system b).Reachable c) (hdone : ∀ w, c.pc w = .done) :
    Combined b c.shared := by
  rcases Nat.eq_zero_or_pos n with rfl | hn
  · exact combined_of_no_workers h
  have hinv := inv_of_reachable h
  have h2 : c.shared.combinePrepareState = 2 := hinv.state_two ⟨0, hn⟩ (by rw [hdone]; trivial)
  have hprep := hinv.prepared h2
  have hdata := hinv.data h2
  have hchain : 0 < b.rowOffset n → ∀ x, ∃ l,
      LinkedChain invalidRow c.shared.hashLinks (c.shared.hashTable x) l ∧
        ∀ g, g ∈ l ↔ ∃ w i, i < b.len w ∧ b.slotOf w i = g ∧
          b.HasBucket c.shared.hashTableCapacity w i x := by
    intro hpos x
    obtain ⟨next, hc⟩ := hdata.chains hpos
    obtain ⟨l, hl, hmem⟩ := hc.chain x
    simp only [hdone, Pc.linked] at hmem
    refine ⟨l, hl.congr fun g hg => ?_, hmem⟩
    -- no link is pending any more: the links are the next rows
    obtain ⟨w, i, hi, rfl, _⟩ := (hmem g).mp hg
    exact hc.stored w i (by simp only [hdone]; exact hi)
  have hrows : ∀ (w : Fin n) (i : Nat) key, (b.locals w).keys[i]? = some key →
      i < b.len w ∧ 0 < b.rowOffset n := by
    intro w i key hkey
    have hi : i < b.len w := (List.getElem?_eq_some_iff.mp hkey).1
    have := b.rowOffset_add_len_le w.isLt
    exact ⟨hi, by omega⟩
  refine
    { range_size := fun w => by rw [hprep.registry w]; exact rowCount_toNat w
      ranges_disjoint := fun w v => hprep.ranges_disjoint
      row_copied := fun w i hi => ?_
      row_salt := fun w i key hkey => ?_
      row_linked := fun w i key hkey x => ?_
      chain_ends := fun x hx => ?_ }
  · rw [hprep.globalRowIdx]
    exact hdata.keys w i (by simp only [hdone]; exact hi)
  · obtain ⟨key', hkey', hsalt⟩ :=
      hdata.salts w i (by simp only [hdone]; exact (hrows w i key hkey).1)
    rw [hkey] at hkey'
    cases hkey'
    rw [hprep.globalRowIdx, hsalt]
  · obtain ⟨hi, hpos⟩ := hrows w i key hkey
    rw [hprep.globalRowIdx]
    constructor
    · rintro ⟨_, l, hl, hg⟩
      obtain ⟨l', hl', hmem⟩ := hchain hpos x
      rw [hl.unique hl', hmem] at hg
      obtain ⟨v, j, hj, hslot, key', hkey', rfl⟩ := hg
      obtain ⟨rfl, rfl⟩ := b.slotOf_inj hprep.total_le hj hi hslot
      rw [hkey] at hkey'
      cases hkey'
      rfl
    · rintro rfl
      refine ⟨hashBucket_lt (hprep.capacity hpos).1 _, ?_⟩
      obtain ⟨l, hl, hmem⟩ := hchain hpos (hashBucket c.shared.hashTableCapacity (b.hash key))
      exact ⟨l, hl, (hmem _).mpr ⟨w, i, hi, rfl, key, hkey, rfl⟩⟩
  · rcases Nat.eq_zero_or_pos (b.rowOffset n) with h0 | hpos
    · rw [hprep.no_capacity h0] at hx
      exact absurd hx (by simp)
    · obtain ⟨l, hl, hmem⟩ := hchain hpos x
      refine ⟨l, hl, hl.nodup, fun g hg => ?_⟩
      obtain ⟨w, i, hi, rfl, _⟩ := (hmem g).mp hg
      exact ⟨w, i, hi, (hprep.globalRowIdx w i).symm⟩

end Steps

section Example

/-- Two workers with one row each, whose hashes fall into the same bucket. -/
def twoRows : Build 2 UInt64 Unit where
  mode := .sharedLocal
  locals w := ⟨[if w = 0 then 4 else 8], [()], rfl, by simp⟩
  hash key := key

def twoRowsStart : Config 2 UInt64 Unit where
  shared := ⟨0, fun _ => ⟨0, 0⟩, 0, fun _ => 0, fun _ => 0, fun _ => 0, fun _ => 0, fun _ => none,
    fun _ => none, fun _ => 0, fun _ => 0⟩
  pc _ := .start

/-- Both workers exchange the head of the bucket before either stores its link. -/
def twoRowsRun : Config 2 UInt64 Unit :=
  ([0, 1, 0, 0, 0, 0, 0, 1, 0, 1, 0, 1, 0, 1, 0, 1, 0, 1, 1, 0, 0, 1, 0, 1, 0, 1] : List (Fin 2)).foldl
    (Config.run twoRows) twoRowsStart

theorem combined_twoRows : twoRowsRun.shared.hashTable 0 = 1 ∧
    twoRowsRun.shared.hashLinks 1 = 0 ∧ Combined twoRows twoRowsRun.shared :=
  ⟨by decide +kernel, by decide +kernel, combined_of_done
    (TransitionSystem.reachable_foldl _ (.initial ⟨rfl, rfl, fun _ => rfl⟩)) (by decide +kernel)⟩

end Example
end HashJoinCombine
end PgYaap
