import Mathlib
import PgYaap.DsmTaskQueue

/-! # Safety of the bounded task queue

Each position of the queue passes through the phases free, claimed, written,
published, taken, copied, released. The invariant assigns a phase to every
position such that the cursors, the sequence numbers, the descriptors and the
program counters all agree with it. A cell serves the positions of one residue
class; at any time at most one of them is neither unopened nor released, and the
sequence number of the cell tells its phase. -/
namespace PgYaap

namespace QueueCapacity

/-- The bit test of the source accepts exactly powers of two between `2` and `2 ^ 31`. -/
theorem exists_log (c : QueueCapacity) : ∃ k, 1 ≤ k ∧ k ≤ 31 ∧ c.val.toNat = 2 ^ k := by
  obtain ⟨v, hge, hand⟩ := c
  have hge' : 2 ≤ v.toNat := by simpa using UInt32.le_iff_toNat_le.mp hge
  have hsub : (v - 1).toNat = v.toNat - 1 := by
    rw [UInt32.toNat_sub_of_le _ _ (UInt32.le_iff_toNat_le.mpr (by simp; omega))]; rfl
  have hand' : v.toNat &&& (v.toNat - 1) = 0 := by
    have := congrArg UInt32.toNat hand
    simpa [UInt32.toNat_and, hsub] using this
  obtain ⟨k, hk⟩ := (Nat.and_sub_one_eq_zero_iff_isPowerOfTwo (by omega)).mp hand'
  have hlt : v.toNat < 2 ^ 32 := v.toNat_lt
  refine ⟨k, ?_, ?_, hk⟩
  · rcases Nat.eq_zero_or_pos k with rfl | hpos
    · omega
    · exact hpos
  · rw [hk] at hlt
    have := (Nat.pow_lt_pow_iff_right (by decide : 1 < 2)).mp hlt
    omega

theorem two_le (c : QueueCapacity) : 2 ≤ c.val.toNat := by
  obtain ⟨k, h1, _, hk⟩ := c.exists_log
  rw [hk]
  calc 2 = 2 ^ 1 := rfl
    _ ≤ 2 ^ k := Nat.pow_le_pow_right (by decide) h1

theorem le_two_pow (c : QueueCapacity) : c.val.toNat ≤ 2 ^ 31 := by
  obtain ⟨k, _, h31, hk⟩ := c.exists_log
  rw [hk]
  exact Nat.pow_le_pow_right (by decide) h31

/-- Masking by `capacity - 1` is the remainder by the capacity. -/
theorem and_mask (c : QueueCapacity) (n : Nat) : n &&& (c.val.toNat - 1) = n % c.val.toNat := by
  obtain ⟨k, _, _, hk⟩ := c.exists_log
  rw [hk, Nat.and_two_pow_sub_one_eq_mod]

end QueueCapacity

namespace DsmTaskQueue

theorem slot_eq (q : DsmTaskQueue) (pos : Nat) : q.slot pos = pos % q.cap :=
  q.capacity.and_mask pos

/-- A zero difference says that the sequence equals the wanted ticket modulo `2 ^ 32`. -/
theorem diff_eq_zero {s : UInt32} {n : Nat} (h : diff s n = 0) : s = UInt32.ofNat n := by
  apply UInt32.toNat_inj.mp
  unfold diff at h
  omega

/-- Two tickets less than `2 ^ 32` apart have different 32-bit images. -/
theorem ofNat_ne {m n : Nat} (hlt : m < n) (hgap : n < m + 2 ^ 32) :
    UInt32.ofNat m ≠ UInt32.ofNat n := by
  intro h
  have h' := congrArg UInt32.toNat h
  simp only [UInt32.toNat_ofNat'] at h'
  omega

section Updates
variable (q : DsmTaskQueue) (pos p : Nat)

@[simp] theorem setSequence_enqueuePos (s) : (q.setSequence pos s).enqueuePos = q.enqueuePos := rfl
@[simp] theorem setSequence_dequeuePos (s) : (q.setSequence pos s).dequeuePos = q.dequeuePos := rfl
@[simp] theorem setSequence_cap (s) : (q.setSequence pos s).cap = q.cap := rfl
@[simp] theorem setDesc_enqueuePos (d) : (q.setDesc pos d).enqueuePos = q.enqueuePos := rfl
@[simp] theorem setDesc_dequeuePos (d) : (q.setDesc pos d).dequeuePos = q.dequeuePos := rfl
@[simp] theorem setDesc_cap (d) : (q.setDesc pos d).cap = q.cap := rfl

theorem sequenceAt_setSequence (s) : (q.setSequence pos s).sequenceAt p =
    if p % q.cap = pos % q.cap then s else q.sequenceAt p := by
  simp only [sequenceAt, slot_eq, setSequence_cap]
  by_cases h : p % q.cap = pos % q.cap
  · simp [setSequence, setCell, slot_eq, h]
  · simp [setSequence, setCell, slot_eq, h]

@[simp] theorem descAt_setSequence (s) : (q.setSequence pos s).descAt p = q.descAt p := by
  simp only [descAt, slot_eq, setSequence_cap]
  by_cases h : p % q.cap = pos % q.cap
  · simp [setSequence, setCell, slot_eq, h]
  · simp [setSequence, setCell, slot_eq, h]

@[simp] theorem sequenceAt_setDesc (d) : (q.setDesc pos d).sequenceAt p = q.sequenceAt p := by
  simp only [sequenceAt, slot_eq, setDesc_cap]
  by_cases h : p % q.cap = pos % q.cap
  · simp [setDesc, setCell, slot_eq, h]
  · simp [setDesc, setCell, slot_eq, h]

theorem descAt_setDesc (d) : (q.setDesc pos d).descAt p =
    if p % q.cap = pos % q.cap then d else q.descAt p := by
  simp only [descAt, slot_eq, setDesc_cap]
  by_cases h : p % q.cap = pos % q.cap
  · simp [setDesc, setCell, slot_eq, h]
  · simp [setDesc, setCell, slot_eq, h]

end Updates
end DsmTaskQueue

namespace QueueMachine
open DsmTaskQueue

/-- The life of one position. -/
inductive Phase
  | free
  | claimed
  | written
  | published
  | taken
  | copied
  | released
deriving DecidableEq

/-- The sequence number a position's cell shows when the position enters a phase. -/
def Phase.ticket (cap p : Nat) : Phase → Nat
  | .free | .claimed | .written => p
  | .published | .taken | .copied => p + 1
  | .released => p + cap

/-- Phases in which the cell holds the descriptor of the position. -/
def Phase.HoldsDesc : Phase → Prop
  | .written | .published | .taken | .copied => True
  | _ => False

/-- Phases of a position that has been published. -/
def Phase.IsPublished : Phase → Prop
  | .published | .taken | .copied | .released => True
  | _ => False

/-- Phases of a position whose consumer compare-and-swap has succeeded. -/
def Phase.IsTaken : Phase → Prop
  | .taken | .copied | .released => True
  | _ => False

/-- The position a process has exclusive access to. -/
def Pc.owned : Pc → Option Nat
  | .pushWrite _ pos | .pushPublish pos | .popCopy _ pos | .popRelease _ pos _ => some pos
  | _ => none

variable {Process : Type}

/-- A position is open when every earlier position served by its cell was released. -/
def Opened (cap : Nat) (phase : Nat → Phase) (p : Nat) : Prop :=
  ∀ q, q + cap = p → phase q = .released

/-- An affine pop may only take a descriptor addressed to its worker. -/
def AffineTo (aff : Option Int32) (d : TaskDescriptor) : Prop :=
  ∀ w, aff = some w → d.workerIndex = w

/-- What a program counter promises about the phases. -/
def PcOk (c : Config Process) (phase : Nat → Phase) : Pc → Prop
  | .idle | .pushLoad _ | .popLoad _ => True
  | .pushSequence _ pos => pos ≤ c.queue.enqueuePos
  | .pushClaim _ pos => pos ≤ c.queue.enqueuePos ∧
      (c.queue.enqueuePos = pos → Opened c.queue.cap phase pos)
  | .pushWrite desc pos => phase pos = .claimed ∧ c.pushes[pos]? = some desc
  | .pushPublish pos => phase pos = .written
  | .popSequence _ pos => pos ≤ c.queue.dequeuePos
  | .popPeek _ pos => pos ≤ c.queue.dequeuePos ∧
      (c.queue.dequeuePos = pos → phase pos = .published)
  | .popClaim aff pos => pos ≤ c.queue.dequeuePos ∧
      (c.queue.dequeuePos = pos → phase pos = .published ∧
        ∃ d, c.pushes[pos]? = some d ∧ AffineTo aff d)
  | .popCopy aff pos => phase pos = .taken ∧ ∃ d, c.pushes[pos]? = some d ∧ AffineTo aff d
  | .popRelease aff pos out => phase pos = .copied ∧ c.pushes[pos]? = some out ∧ AffineTo aff out

/-- **The queue invariant** for a given assignment of phases. -/
structure PhaseInv (c : Config Process) (phase : Nat → Phase) : Prop where
  /-- The producer cursor separates the free positions from the others. -/
  free_iff : ∀ p, phase p = .free ↔ c.queue.enqueuePos ≤ p
  /-- The consumer cursor separates the taken positions from the others. -/
  taken_iff : ∀ p, (phase p).IsTaken ↔ p < c.queue.dequeuePos
  /-- A position leaves `free` only after its cell was released one lap earlier. -/
  window : ∀ p, phase p ≠ .free → Opened c.queue.cap phase p
  /-- The sequence number of a cell tells the phase of its current position. -/
  sequence : ∀ p, Opened c.queue.cap phase p → phase p ≠ .released →
    c.queue.sequenceAt p = UInt32.ofNat ((phase p).ticket c.queue.cap p)
  /-- From the write to the release, the cell holds the pushed descriptor. -/
  desc : ∀ p, (phase p).HoldsDesc → c.pushes[p]? = some (c.queue.descAt p)
  pushes_length : c.pushes.length = c.queue.enqueuePos
  pcOk : ∀ t, PcOk c phase (c.pc t)
  /-- No two processes own the same position. -/
  exclusive : ∀ t u p, (c.pc t).owned = some p → (c.pc u).owned = some p → t = u
  published_iff : ∀ p, p ∈ c.published ↔ (phase p).IsPublished
  published_nodup : c.published.Nodup
  claims_eq : c.claims = List.range c.queue.dequeuePos
  popped_iff : ∀ p, p ∈ c.pops.map Pop.pos ↔ phase p = .released
  pops_nodup : (c.pops.map Pop.pos).Nodup
  pops_ok : ∀ r ∈ c.pops, c.pushes[r.pos]? = some r.desc ∧ AffineTo r.aff r.desc

section Laps
variable {c : Config Process} {phase : Nat → Phase}

/-- Every earlier position of an open position's cell is released. -/
theorem PhaseInv.released_of_opened (h : PhaseInv c phase) {p : Nat}
    (hp : Opened c.queue.cap phase p) (k : Nat) :
    ∀ q, q + (k + 1) * c.queue.cap = p → phase q = .released := by
  induction k with
  | zero => intro q hq; exact hp q (by omega)
  | succ k ih =>
    intro q hq
    have hnext : phase (q + c.queue.cap) = .released := by
      apply ih
      rw [← hq]; ring
    exact h.window _ (by rw [hnext]; decide) q rfl

/-- **One current position per cell.** Two open positions of one cell of which
neither is released coincide. -/
theorem PhaseInv.current_unique (h : PhaseInv c phase) {p q : Nat}
    (hp : Opened c.queue.cap phase p) (hp' : phase p ≠ .released)
    (hq : Opened c.queue.cap phase q) (hq' : phase q ≠ .released)
    (hmod : p % c.queue.cap = q % c.queue.cap) : p = q := by
  have key : ∀ a b, a < b → a % c.queue.cap = b % c.queue.cap →
      Opened c.queue.cap phase b → phase a = .released := by
    intro a b hab hm hb
    obtain ⟨k, hk⟩ : c.queue.cap ∣ b - a := (Nat.modEq_iff_dvd' hab.le).mp hm
    cases k with
    | zero => omega
    | succ k => exact h.released_of_opened hb k a (by rw [Nat.mul_comm]; omega)
  rcases Nat.lt_trichotomy p q with hlt | heq | hgt
  · exact absurd (key p q hlt hmod hq) hp'
  · exact heq
  · exact absurd (key q p hgt hmod.symm hp) hq'

theorem cap_bounds (q : DsmTaskQueue) : 2 ≤ q.cap ∧ q.cap ≤ 2 ^ 31 :=
  ⟨q.capacity.two_le, q.capacity.le_two_pow⟩

/-- While the cell of a claimed-or-later position `q` is not released, the
position one lap later does not see a sequence number of its own. -/
theorem PhaseInv.sequence_prev (h : PhaseInv c phase) {p : Nat}
    (hp : ¬ Opened c.queue.cap phase p) (hfree : p ≤ c.queue.enqueuePos) :
    ∃ n, c.queue.sequenceAt p = UInt32.ofNat n ∧ n < p ∧ p < n + 2 ^ 32 - 1 := by
  obtain ⟨hcap2, hcap31⟩ := cap_bounds c.queue
  obtain ⟨q, hqp, hq⟩ : ∃ q, q + c.queue.cap = p ∧ phase q ≠ .released := by
    simpa [Opened] using hp
  have hqfree : phase q ≠ .free := fun hf => by
    have := (h.free_iff q).mp hf
    omega
  have hseq := h.sequence q (h.window q hqfree) hq
  have hslot : c.queue.sequenceAt p = c.queue.sequenceAt q := by
    simp only [sequenceAt, slot_eq, ← hqp, Nat.add_mod_right]
  refine ⟨(phase q).ticket c.queue.cap q, hslot.trans hseq, ?_, ?_⟩
  all_goals cases hph : phase q <;> first
    | exact absurd hph hq
    | (simp only [Phase.ticket]; omega)

/-- A producer that finds its ticket at the cursor has found an open cell. -/
theorem PhaseInv.opened_of_sequence (h : PhaseInv c phase) {p : Nat}
    (hp : c.queue.enqueuePos = p) (hs : c.queue.sequenceAt p = UInt32.ofNat p) :
    Opened c.queue.cap phase p := by
  by_contra hno
  obtain ⟨n, hn, hlt, hgap⟩ := h.sequence_prev hno hp.ge
  exact ofNat_ne hlt (by omega) (hn.symm.trans hs)

/-- A consumer that finds its ticket at the cursor has found a published cell. -/
theorem PhaseInv.published_of_sequence (h : PhaseInv c phase) {p : Nat}
    (hp : c.queue.dequeuePos = p) (hs : c.queue.sequenceAt p = UInt32.ofNat (p + 1)) :
    phase p = .published := by
  have hntaken : ¬ (phase p).IsTaken := fun ht => by
    have := (h.taken_iff p).mp ht
    omega
  have hopened : Opened c.queue.cap phase p := by
    by_cases hf : phase p = .free
    · by_contra hno
      have hle : p ≤ c.queue.enqueuePos := by
        by_contra hgt
        -- the position before an unclaimed one is unclaimed, hence not taken
        have hd : c.queue.enqueuePos < c.queue.dequeuePos := by omega
        have ht := (h.taken_iff _).mpr hd
        have hfree := (h.free_iff c.queue.enqueuePos).mpr le_rfl
        rw [hfree] at ht
        exact ht
      obtain ⟨n, hn, hlt, hgap⟩ := h.sequence_prev hno hle
      exact ofNat_ne (by omega : n < p + 1) (by omega) (hn.symm.trans hs)
    · exact h.window p hf
  have hrel : phase p ≠ .released := fun hr => hntaken (by rw [hr]; trivial)
  have hseq := (h.sequence p hopened hrel).symm.trans hs
  have hne : UInt32.ofNat p ≠ UInt32.ofNat (p + 1) := ofNat_ne (by omega) (by omega)
  cases hph : phase p with
  | published => rfl
  | free | claimed | written =>
    rw [hph] at hseq
    exact absurd hseq hne
  | taken | copied | released =>
    rw [hph] at hntaken
    exact absurd trivial hntaken

end Laps

section Moves
variable {c c' : Config Process} {phase : Nat → Phase} {pos : Nat} {ph : Phase}

/-- Moving a position that is not released opens no cell, except that its
release opens the position one lap later. -/
theorem opened_of_update {cap : Nat} {p : Nat}
    (hp : Opened cap (Function.update phase pos ph) p) :
    Opened cap phase p ∨ (ph = .released ∧ p = pos + cap) := by
  by_cases h : ph = .released ∧ p = pos + cap
  · exact Or.inr h
  · refine Or.inl fun q hq => ?_
    have hq' := hp q hq
    rcases eq_or_ne q pos with rfl | hne
    · rw [Function.update_self] at hq'
      exact absurd ⟨hq', hq.symm⟩ h
    · rwa [Function.update_of_ne hne] at hq'

/-- A cell that was open stays open. -/
theorem Opened.update {cap p : Nat} (hp : Opened cap phase p) (hold : phase pos ≠ .released) :
    Opened cap (Function.update phase pos ph) p := by
  intro q hq
  have hne : q ≠ pos := by rintro rfl; exact hold (hp q hq)
  rw [Function.update_of_ne hne]
  exact hp q hq

/-- An owned position is neither free, nor published, nor released. -/
theorem PcOk.owned_phase {pc : Pc} (h : PcOk c phase pc) {p : Nat} (ho : pc.owned = some p) :
    phase p ≠ .free ∧ phase p ≠ .published ∧ phase p ≠ .released := by
  cases pc with
  | pushWrite | pushPublish | popCopy | popRelease =>
    simp only [Pc.owned, Option.some.injEq] at ho
    subst ho
    simp only [PcOk] at h
    simp [h]
  | _ => simp [Pc.owned] at ho

/-- What a program counter promises survives the steps of other processes: the
cursors only grow, released positions stay released, published positions stay
so until the consumer cursor passes them, and owned positions do not move. -/
theorem PcOk.mono {phase' : Nat → Phase} {pc : Pc} (h : PcOk c phase pc)
    (hcap : c'.queue.cap = c.queue.cap)
    (henq : c.queue.enqueuePos ≤ c'.queue.enqueuePos)
    (hdeq : c.queue.dequeuePos ≤ c'.queue.dequeuePos)
    (hrel : ∀ p, phase p = .released → phase' p = .released)
    (hpub : ∀ p, phase p = .published → phase' p = .published ∨ p < c'.queue.dequeuePos)
    (hpush : ∀ (p : Nat) (d : TaskDescriptor), c.pushes[p]? = some d → c'.pushes[p]? = some d)
    (hown : ∀ p, pc.owned = some p → phase' p = phase p) : PcOk c' phase' pc := by
  cases pc with
  | idle | pushLoad | popLoad => trivial
  | pushSequence | popSequence =>
    simp only [PcOk] at h ⊢
    omega
  | pushClaim desc pos =>
    obtain ⟨hle, hop⟩ := h
    refine ⟨by omega, fun he q hq => hrel q (hop (by omega) q ?_)⟩
    rw [← hcap]; exact hq
  | pushWrite desc pos =>
    obtain ⟨hph, hd⟩ := h
    exact ⟨(hown pos rfl).trans hph, hpush _ _ hd⟩
  | pushPublish pos => exact (hown pos rfl).trans h
  | popPeek w pos =>
    obtain ⟨hle, hp⟩ := h
    refine ⟨by omega, fun he => ?_⟩
    rcases hpub pos (hp (by omega)) with hp' | hlt
    · exact hp'
    · omega
  | popClaim aff pos =>
    obtain ⟨hle, hp⟩ := h
    refine ⟨by omega, fun he => ?_⟩
    obtain ⟨hph, d, hd, haff⟩ := hp (by omega)
    rcases hpub pos hph with hp' | hlt
    · exact ⟨hp', d, hpush _ _ hd, haff⟩
    · omega
  | popCopy aff pos =>
    obtain ⟨hph, d, hd, haff⟩ := h
    exact ⟨(hown pos rfl).trans hph, d, hpush _ _ hd, haff⟩
  | popRelease aff pos out =>
    obtain ⟨hph, hd, haff⟩ := h
    exact ⟨(hown pos rfl).trans hph, hpush _ _ hd, haff⟩

/-- A process that keeps at most the position it owned excludes the others. -/
theorem PhaseInv.owned_excludes (h : PhaseInv c phase) {t : Process} {p : Nat}
    (ht : (c.pc t).owned = some p) : ∀ u, u ≠ t → (c.pc u).owned ≠ some p :=
  fun u hut hu => hut (h.exclusive u t p hu ht)

/-- What the invariant says about a position that a process owns. -/
theorem PhaseInv.of_owned (h : PhaseInv c phase) {t : Process}
    (ho : (c.pc t).owned = some pos) :
    (∀ u, u ≠ t → (c.pc u).owned ≠ some pos) ∧ phase pos ≠ .released ∧
      Opened c.queue.cap phase pos ∧ pos < c.queue.enqueuePos ∧
      phase pos ≠ .published ∧ pos ∉ c.pops.map Pop.pos := by
  obtain ⟨hnf, hnp, hnr⟩ := (h.pcOk t).owned_phase ho
  have hlt := mt (h.free_iff pos).mpr hnf
  refine ⟨h.owned_excludes ho, hnr, h.window pos hnf, by omega, hnp, ?_⟩
  rw [h.popped_iff pos]
  exact hnr

variable [DecidableEq Process]

/-- Exclusive ownership after one process moved: it may only come to own a
position that no other process owns. -/
theorem PhaseInv.exclusive_update (h : PhaseInv c phase) {t : Process} {pc : Pc}
    (hpc : ∀ p, pc.owned = some p → ∀ u, u ≠ t → (c.pc u).owned ≠ some p) :
    ∀ u v p, (Function.update c.pc t pc u).owned = some p →
      (Function.update c.pc t pc v).owned = some p → u = v := by
  intro u v p hu hv
  by_cases hut : u = t
  · by_cases hvt : v = t
    · exact hut.trans hvt.symm
    · rw [hut, Function.update_self] at hu
      rw [Function.update_of_ne hvt] at hv
      exact absurd hv (hpc p hu v hvt)
  · rw [Function.update_of_ne hut] at hu
    by_cases hvt : v = t
    · rw [hvt, Function.update_self] at hv
      exact absurd hu (hpc p hv u hut)
    · rw [Function.update_of_ne hvt] at hv
      exact h.exclusive u v p hu hv

/-- A step that only moves a program counter, to one whose promise holds and
which owns nothing new, keeps the invariant. -/
theorem PhaseInv.goto (h : PhaseInv c phase) {t : Process} {pc : Pc}
    (hok : PcOk c phase pc) (howned : pc.owned = none) : PhaseInv (c.goto t pc) phase where
  free_iff := h.free_iff
  taken_iff := h.taken_iff
  window := h.window
  sequence := h.sequence
  desc := h.desc
  pushes_length := h.pushes_length
  pcOk u := by
    have hmono : ∀ pc', PcOk c phase pc' → PcOk (c.goto t pc) phase pc' := fun pc' h' =>
      h'.mono rfl le_rfl le_rfl (fun _ => id) (fun _ => Or.inl) (fun _ _ => id) (fun _ _ => rfl)
    rcases eq_or_ne u t with rfl | hu
    · simpa [Config.goto] using hmono pc hok
    · simpa [Config.goto, hu] using hmono _ (h.pcOk u)
  exclusive := h.exclusive_update (by simp [howned])
  published_iff := h.published_iff
  published_nodup := h.published_nodup
  claims_eq := h.claims_eq
  popped_iff := h.popped_iff
  pops_nodup := h.pops_nodup
  pops_ok := h.pops_ok

/-- A step in which process `t` takes position `pos` to phase `ph` and then
stands at `pc`: what it changes, and that it changes nothing else. -/
structure Move (c c' : Config Process) (phase : Nat → Phase) (t : Process) (pc : Pc) (pos : Nat)
    (ph : Phase) : Prop where
  pc_eq : c'.pc = Function.update c.pc t pc
  cap_eq : c'.queue.cap = c.queue.cap
  owned : ∀ p, pc.owned = some p → p = pos
  alone : ∀ u, u ≠ t → (c.pc u).owned ≠ some pos
  not_released : phase pos ≠ .released
  opened : Opened c.queue.cap phase pos
  not_free : ph ≠ .free
  claimed : pos < c'.queue.enqueuePos
  enqueue_iff : ∀ p, p ≠ pos → (c'.queue.enqueuePos ≤ p ↔ c.queue.enqueuePos ≤ p)
  taken : ph.IsTaken ↔ pos < c'.queue.dequeuePos
  dequeue_iff : ∀ p, p ≠ pos → (p < c'.queue.dequeuePos ↔ p < c.queue.dequeuePos)
  dequeue_le : c.queue.dequeuePos ≤ c'.queue.dequeuePos
  left_published : phase pos = .published → pos < c'.queue.dequeuePos
  sequence_self : c'.queue.sequenceAt pos = UInt32.ofNat (ph.ticket c.queue.cap pos)
  sequence_other : ∀ p, p % c.queue.cap ≠ pos % c.queue.cap →
    c'.queue.sequenceAt p = c.queue.sequenceAt p
  desc_self : ph.HoldsDesc → c'.pushes[pos]? = some (c'.queue.descAt pos)
  desc_other : ∀ p, p % c.queue.cap ≠ pos % c.queue.cap → c'.queue.descAt p = c.queue.descAt p
  pushes_mono : ∀ (p : Nat) (d : TaskDescriptor), c.pushes[p]? = some d → c'.pushes[p]? = some d
  pushes_length : c'.pushes.length = c'.queue.enqueuePos
  pcOk : PcOk c' (Function.update phase pos ph) pc
  published_self : pos ∈ c'.published ↔ ph.IsPublished
  published_other : ∀ p, p ≠ pos → (p ∈ c'.published ↔ p ∈ c.published)
  published_nodup : c'.published.Nodup
  claims_eq : c'.claims = List.range c'.queue.dequeuePos
  popped_self : pos ∈ c'.pops.map Pop.pos ↔ ph = .released
  popped_other : ∀ p, p ≠ pos → (p ∈ c'.pops.map Pop.pos ↔ p ∈ c.pops.map Pop.pos)
  pops_nodup : (c'.pops.map Pop.pos).Nodup
  pops_ok : ∀ r ∈ c'.pops, c'.pushes[r.pos]? = some r.desc ∧ AffineTo r.aff r.desc

/-- The promises of all processes after a move. -/
theorem PhaseInv.pcOk_move (h : PhaseInv c phase) {t : Process} {pc : Pc}
    (hm : Move c c' phase t pc pos ph) : ∀ u, PcOk c' (Function.update phase pos ph) (c'.pc u) := by
  intro u
  rw [hm.pc_eq]
  rcases eq_or_ne u t with rfl | hu
  · rw [Function.update_self]; exact hm.pcOk
  · rw [Function.update_of_ne hu]
    have henq : c.queue.enqueuePos ≤ c'.queue.enqueuePos := by
      rcases eq_or_ne c'.queue.enqueuePos pos with he | hne
      · have := hm.claimed
        omega
      · exact (hm.enqueue_iff _ hne).mp le_rfl
    refine (h.pcOk u).mono hm.cap_eq henq hm.dequeue_le ?_ ?_ hm.pushes_mono ?_
    · intro p hp
      have hne : p ≠ pos := by rintro rfl; exact hm.not_released hp
      rw [Function.update_of_ne hne]
      exact hp
    · intro p hp
      rcases eq_or_ne p pos with rfl | hne
      · exact Or.inr (hm.left_published hp)
      · rw [Function.update_of_ne hne]; exact Or.inl hp
    · intro p hp
      have hne : p ≠ pos := by rintro rfl; exact hm.alone u hu hp
      exact Function.update_of_ne hne _ _

/-- Another position whose cell is current lies in another cell. -/
theorem PhaseInv.other_cell (h : PhaseInv c phase) {t : Process} {pc : Pc}
    (hm : Move c c' phase t pc pos ph) {p : Nat} (hne : p ≠ pos)
    (hop : Opened c.queue.cap phase p) (hp : phase p ≠ .released) :
    p % c.queue.cap ≠ pos % c.queue.cap :=
  fun hmod => hne (h.current_unique hop hp hm.opened hm.not_released hmod)

/-- **Every move keeps the invariant.** -/
theorem PhaseInv.move (h : PhaseInv c phase) {t : Process} {pc : Pc}
    (hm : Move c c' phase t pc pos ph) : PhaseInv c' (Function.update phase pos ph) where
  free_iff p := by
    rcases eq_or_ne p pos with rfl | hne
    · have := hm.claimed
      simp only [Function.update_self, hm.not_free, false_iff]
      omega
    · rw [Function.update_of_ne hne, h.free_iff p, hm.enqueue_iff p hne]
  taken_iff p := by
    rcases eq_or_ne p pos with rfl | hne
    · rw [Function.update_self]; exact hm.taken
    · rw [Function.update_of_ne hne, h.taken_iff p, hm.dequeue_iff p hne]
  window p hp := by
    rw [hm.cap_eq]
    refine Opened.update ?_ hm.not_released
    rcases eq_or_ne p pos with rfl | hne
    · exact hm.opened
    · rw [Function.update_of_ne hne] at hp
      exact h.window p hp
  sequence p hop hp := by
    rw [hm.cap_eq] at hop ⊢
    rcases eq_or_ne p pos with rfl | hne
    · rw [Function.update_self]; exact hm.sequence_self
    · rw [Function.update_of_ne hne] at hp ⊢
      rcases opened_of_update hop with hop' | ⟨rfl, rfl⟩
      · rw [hm.sequence_other p (h.other_cell hm hne hop' hp)]
        exact h.sequence p hop' hp
      · -- the lap after a released position has not been claimed yet
        have hfree : phase (pos + c.queue.cap) = .free := by
          by_contra hf
          exact hm.not_released (h.window _ hf pos rfl)
        have hslot : c'.queue.sequenceAt (pos + c.queue.cap) = c'.queue.sequenceAt pos := by
          simp only [sequenceAt, slot_eq, hm.cap_eq, Nat.add_mod_right]
        rw [hslot, hm.sequence_self, hfree]
        rfl
  desc p hp := by
    rcases eq_or_ne p pos with rfl | hne
    · rw [Function.update_self] at hp
      exact hm.desc_self hp
    · rw [Function.update_of_ne hne] at hp
      have hnf : phase p ≠ .free := by intro hf; rw [hf] at hp; exact hp
      have hnr : phase p ≠ .released := by intro hf; rw [hf] at hp; exact hp
      rw [hm.desc_other p (h.other_cell hm hne (h.window p hnf) hnr)]
      exact hm.pushes_mono p _ (h.desc p hp)
  pushes_length := hm.pushes_length
  pcOk := h.pcOk_move hm
  exclusive := by
    rw [hm.pc_eq]
    refine h.exclusive_update fun p hp => ?_
    rw [hm.owned p hp]
    exact hm.alone
  published_iff p := by
    rcases eq_or_ne p pos with rfl | hne
    · rw [Function.update_self]; exact hm.published_self
    · rw [Function.update_of_ne hne, hm.published_other p hne, h.published_iff p]
  published_nodup := hm.published_nodup
  claims_eq := hm.claims_eq
  popped_iff p := by
    rcases eq_or_ne p pos with rfl | hne
    · rw [Function.update_self]; exact hm.popped_self
    · rw [Function.update_of_ne hne, hm.popped_other p hne, h.popped_iff p]
  pops_nodup := hm.pops_nodup
  pops_ok := hm.pops_ok

/-- `TryPush` claims the position at the producer cursor. -/
theorem PhaseInv.pushClaim_move (h : PhaseInv c phase) {t : Process} {desc : TaskDescriptor}
    (hpc : c.pc t = .pushClaim desc pos) (henq : c.queue.enqueuePos = pos) :
    Move c (c.run t) phase t (.pushWrite desc pos) pos .claimed := by
  have hok := h.pcOk t
  rw [hpc] at hok
  have hopen : Opened c.queue.cap phase pos := hok.2 henq
  have hfree : phase pos = .free := (h.free_iff pos).mpr henq.le
  have hrun : c.run t = { c.goto t (.pushWrite desc pos) with
      queue := { c.queue with enqueuePos := pos + 1 }, pushes := c.pushes ++ [desc] } := by
    simp only [Config.run, hpc, henq, if_true]
  have hpush : ∀ (p : Nat) (d : TaskDescriptor),
      c.pushes[p]? = some d → (c.pushes ++ [desc])[p]? = some d := fun p d hd => by
    rw [List.getElem?_append_left (List.getElem?_eq_some_iff.mp hd).1]
    exact hd
  have hmine : (c.pushes ++ [desc])[pos]? = some desc := by
    rw [← henq, ← h.pushes_length, List.getElem?_concat_length]
  have htaken := h.taken_iff pos
  have hpublished := h.published_iff pos
  have hnpop := mt (h.popped_iff pos).mp (by rw [hfree]; decide)
  have hseq := h.sequence pos hopen (by rw [hfree]; decide)
  rw [hfree] at htaken hpublished hseq
  rw [hrun]
  exact
    { pc_eq := rfl
      cap_eq := rfl
      owned := fun p hp => (Option.some.inj hp).symm
      alone := fun u _ hu => ((h.pcOk u).owned_phase hu).1 hfree
      not_released := by rw [hfree]; decide
      opened := hopen
      not_free := by decide
      claimed := Nat.lt_succ_self pos
      enqueue_iff := fun p hp => by
        change pos + 1 ≤ p ↔ _
        omega
      taken := htaken
      dequeue_iff := fun _ _ => Iff.rfl
      dequeue_le := le_rfl
      left_published := fun hp => by rw [hfree] at hp; cases hp
      sequence_self := hseq
      sequence_other := fun _ _ => rfl
      desc_self := False.elim
      desc_other := fun _ _ => rfl
      pushes_mono := hpush
      pushes_length := by
        change (c.pushes ++ [desc]).length = pos + 1
        rw [List.length_append, h.pushes_length, henq]; rfl
      pcOk := ⟨Function.update_self .., hmine⟩
      published_self := hpublished
      published_other := fun _ _ => Iff.rfl
      published_nodup := h.published_nodup
      claims_eq := h.claims_eq
      popped_self := ⟨fun hp => absurd hp hnpop, fun hp => by cases hp⟩
      popped_other := fun _ _ => Iff.rfl
      pops_nodup := h.pops_nodup
      pops_ok := fun r hr => ⟨hpush _ _ (h.pops_ok r hr).1, (h.pops_ok r hr).2⟩ }

/-- A consumer claims the published position at the consumer cursor. -/
theorem PhaseInv.popClaim_move (h : PhaseInv c phase) {t : Process} {aff : Option Int32}
    (hpc : c.pc t = .popClaim aff pos) (hdeq : c.queue.dequeuePos = pos) :
    Move c (c.run t) phase t (.popCopy aff pos) pos .taken := by
  have hok := h.pcOk t
  rw [hpc] at hok
  obtain ⟨hph, haff⟩ := hok.2 hdeq
  have hnf : phase pos ≠ .free := by rw [hph]; decide
  have hopen := h.window pos hnf
  have hrun : c.run t = { c.goto t (.popCopy aff pos) with
      queue := { c.queue with dequeuePos := pos + 1 }, claims := c.claims ++ [pos] } := by
    simp only [Config.run, hpc, hdeq, if_true]
  have hpublished := h.published_iff pos
  have hnpop := mt (h.popped_iff pos).mp (by rw [hph]; decide)
  have hseq := h.sequence pos hopen (by rw [hph]; decide)
  rw [hph] at hpublished hseq
  have hdesc := h.desc pos (by rw [hph]; trivial)
  rw [hrun]
  exact
    { pc_eq := rfl
      cap_eq := rfl
      owned := fun p hp => (Option.some.inj hp).symm
      alone := fun u _ hu => ((h.pcOk u).owned_phase hu).2.1 hph
      not_released := by rw [hph]; decide
      opened := hopen
      not_free := by decide
      claimed := by
        have := mt (h.free_iff pos).mpr hnf
        change pos < c.queue.enqueuePos
        omega
      enqueue_iff := fun _ _ => Iff.rfl
      taken := ⟨fun _ => Nat.lt_succ_self pos, fun _ => trivial⟩
      dequeue_iff := fun p hp => by
        change p < pos + 1 ↔ _
        omega
      dequeue_le := by
        change _ ≤ pos + 1
        omega
      left_published := fun _ => Nat.lt_succ_self pos
      sequence_self := hseq
      sequence_other := fun _ _ => rfl
      desc_self := fun _ => hdesc
      desc_other := fun _ _ => rfl
      pushes_mono := fun _ _ => id
      pushes_length := h.pushes_length
      pcOk := ⟨Function.update_self .., haff⟩
      published_self := hpublished
      published_other := fun _ _ => Iff.rfl
      published_nodup := h.published_nodup
      claims_eq := by
        change c.claims ++ [pos] = List.range (pos + 1)
        rw [h.claims_eq, hdeq, List.range_succ]
      popped_self := ⟨fun hp => absurd hp hnpop, fun hp => by cases hp⟩
      popped_other := fun _ _ => Iff.rfl
      pops_nodup := h.pops_nodup
      pops_ok := h.pops_ok }

/-- The producer stores the descriptor into the cell it claimed. -/
theorem PhaseInv.pushWrite_move (h : PhaseInv c phase) {t : Process} {desc : TaskDescriptor}
    (hpc : c.pc t = .pushWrite desc pos) :
    Move c (c.run t) phase t (.pushPublish pos) pos .written := by
  have hok := h.pcOk t
  rw [hpc] at hok
  obtain ⟨hph, hmine⟩ := hok
  obtain ⟨halone, hnr, hopen, hlt, hnp, hnpop⟩ := h.of_owned (t := t) (by rw [hpc]; rfl)
  have hrun : c.run t =
      { c.goto t (.pushPublish pos) with queue := c.queue.setDesc pos desc } := by
    simp only [Config.run, hpc]
  have htaken := h.taken_iff pos
  have hpublished := h.published_iff pos
  have hseq := h.sequence pos hopen hnr
  rw [hph] at htaken hpublished hseq
  rw [hrun]
  exact
    { pc_eq := rfl
      cap_eq := rfl
      owned := fun p hp => (Option.some.inj hp).symm
      alone := halone
      not_released := hnr
      opened := hopen
      not_free := by decide
      claimed := hlt
      enqueue_iff := fun _ _ => Iff.rfl
      taken := htaken
      dequeue_iff := fun _ _ => Iff.rfl
      dequeue_le := le_rfl
      left_published := fun hp => absurd hp hnp
      sequence_self := (sequenceAt_setDesc ..).trans hseq
      sequence_other := fun p _ => sequenceAt_setDesc ..
      desc_self := fun _ => by
        change c.pushes[pos]? = some ((c.queue.setDesc pos desc).descAt pos)
        rw [descAt_setDesc, if_pos rfl]; exact hmine
      desc_other := fun p hp => by
        change (c.queue.setDesc pos desc).descAt p = _
        rw [descAt_setDesc, if_neg hp]
      pushes_mono := fun _ _ => id
      pushes_length := h.pushes_length
      pcOk := Function.update_self ..
      published_self := hpublished
      published_other := fun _ _ => Iff.rfl
      published_nodup := h.published_nodup
      claims_eq := h.claims_eq
      popped_self := ⟨fun hp => absurd hp hnpop, fun hp => by cases hp⟩
      popped_other := fun _ _ => Iff.rfl
      pops_nodup := h.pops_nodup
      pops_ok := h.pops_ok }

/-- The producer's release store publishes the position. -/
theorem PhaseInv.pushPublish_move (h : PhaseInv c phase) {t : Process}
    (hpc : c.pc t = .pushPublish pos) :
    Move c (c.run t) phase t .idle pos .published := by
  have hph := h.pcOk t
  rw [hpc] at hph
  change phase pos = .written at hph
  obtain ⟨halone, hnr, hopen, hlt, hnp, hnpop⟩ := h.of_owned (t := t) (by rw [hpc]; rfl)
  have hrun : c.run t = { c.goto t .idle with
      queue := c.queue.setSequence pos (UInt32.ofNat (pos + 1))
      published := c.published ++ [pos] } := by
    simp only [Config.run, hpc]
  have htaken := h.taken_iff pos
  have hdesc := h.desc pos (by rw [hph]; trivial)
  have hnpub := mt (h.published_iff pos).mp (by rw [hph]; exact id)
  rw [hph] at htaken
  rw [hrun]
  exact
    { pc_eq := rfl
      cap_eq := rfl
      owned := fun p hp => by cases hp
      alone := halone
      not_released := hnr
      opened := hopen
      not_free := by decide
      claimed := hlt
      enqueue_iff := fun _ _ => Iff.rfl
      taken := htaken
      dequeue_iff := fun _ _ => Iff.rfl
      dequeue_le := le_rfl
      left_published := fun hp => absurd hp hnp
      sequence_self := by
        change (c.queue.setSequence pos _).sequenceAt pos = _
        rw [sequenceAt_setSequence, if_pos rfl]; rfl
      sequence_other := fun p hp => by
        change (c.queue.setSequence pos _).sequenceAt p = _
        rw [sequenceAt_setSequence, if_neg hp]
      desc_self := fun _ => hdesc.trans (congrArg some (descAt_setSequence ..).symm)
      desc_other := fun p _ => descAt_setSequence ..
      pushes_mono := fun _ _ => id
      pushes_length := h.pushes_length
      pcOk := trivial
      published_self := by simp [Phase.IsPublished]
      published_other := fun p hp => by simp [hp]
      published_nodup := by
        change (c.published ++ [pos]).Nodup
        rw [← List.concat_eq_append]
        exact h.published_nodup.concat hnpub
      claims_eq := h.claims_eq
      popped_self := ⟨fun hp => absurd hp hnpop, fun hp => by cases hp⟩
      popped_other := fun _ _ => Iff.rfl
      pops_nodup := h.pops_nodup
      pops_ok := h.pops_ok }

/-- The consumer copies the descriptor out of the cell it claimed, and gets the
descriptor that was pushed there. -/
theorem PhaseInv.popCopy_move (h : PhaseInv c phase) {t : Process} {aff : Option Int32}
    (hpc : c.pc t = .popCopy aff pos) :
    Move c (c.run t) phase t (.popRelease aff pos (c.queue.descAt pos)) pos .copied := by
  have hok := h.pcOk t
  rw [hpc] at hok
  obtain ⟨hph, d, hd, haff⟩ := hok
  obtain ⟨halone, hnr, hopen, hlt, hnp, hnpop⟩ := h.of_owned (t := t) (by rw [hpc]; rfl)
  have hrun : c.run t = c.goto t (.popRelease aff pos (c.queue.descAt pos)) := by
    simp only [Config.run, hpc]
  have htaken := h.taken_iff pos
  have hpublished := h.published_iff pos
  have hdesc := h.desc pos (by rw [hph]; trivial)
  have hseq := h.sequence pos hopen hnr
  have hcopy : c.queue.descAt pos = d := Option.some.inj (hdesc.symm.trans hd)
  rw [hph] at htaken hpublished hseq
  rw [hrun]
  exact
    { pc_eq := rfl
      cap_eq := rfl
      owned := fun p hp => (Option.some.inj hp).symm
      alone := halone
      not_released := hnr
      opened := hopen
      not_free := by decide
      claimed := hlt
      enqueue_iff := fun _ _ => Iff.rfl
      taken := htaken
      dequeue_iff := fun _ _ => Iff.rfl
      dequeue_le := le_rfl
      left_published := fun hp => absurd hp hnp
      sequence_self := hseq
      sequence_other := fun _ _ => rfl
      desc_self := fun _ => hdesc
      desc_other := fun _ _ => rfl
      pushes_mono := fun _ _ => id
      pushes_length := h.pushes_length
      pcOk := ⟨Function.update_self .., hdesc, hcopy ▸ haff⟩
      published_self := hpublished
      published_other := fun _ _ => Iff.rfl
      published_nodup := h.published_nodup
      claims_eq := h.claims_eq
      popped_self := ⟨fun hp => absurd hp hnpop, fun hp => by cases hp⟩
      popped_other := fun _ _ => Iff.rfl
      pops_nodup := h.pops_nodup
      pops_ok := h.pops_ok }

/-- The consumer's release store hands the cell to the producer one lap later. -/
theorem PhaseInv.popRelease_move (h : PhaseInv c phase) {t : Process} {aff : Option Int32}
    {out : TaskDescriptor} (hpc : c.pc t = .popRelease aff pos out) :
    Move c (c.run t) phase t .idle pos .released := by
  have hok := h.pcOk t
  rw [hpc] at hok
  obtain ⟨hph, hout, haff⟩ := hok
  obtain ⟨halone, hnr, hopen, hlt, hnp, hnpop⟩ := h.of_owned (t := t) (by rw [hpc]; rfl)
  have hrun : c.run t = { c.goto t .idle with
      queue := c.queue.setSequence pos (UInt32.ofNat (pos + c.queue.cap))
      pops := c.pops ++ [⟨pos, aff, out⟩] } := by
    simp only [Config.run, hpc]
  have htaken := h.taken_iff pos
  have hpublished := h.published_iff pos
  rw [hph] at htaken hpublished
  rw [hrun]
  exact
    { pc_eq := rfl
      cap_eq := rfl
      owned := fun p hp => by cases hp
      alone := halone
      not_released := hnr
      opened := hopen
      not_free := by decide
      claimed := hlt
      enqueue_iff := fun _ _ => Iff.rfl
      taken := htaken
      dequeue_iff := fun _ _ => Iff.rfl
      dequeue_le := le_rfl
      left_published := fun hp => absurd hp hnp
      sequence_self := by
        change (c.queue.setSequence pos _).sequenceAt pos = _
        rw [sequenceAt_setSequence, if_pos rfl]; rfl
      sequence_other := fun p hp => by
        change (c.queue.setSequence pos _).sequenceAt p = _
        rw [sequenceAt_setSequence, if_neg hp]
      desc_self := False.elim
      desc_other := fun p _ => descAt_setSequence ..
      pushes_mono := fun _ _ => id
      pushes_length := h.pushes_length
      pcOk := trivial
      published_self := hpublished
      published_other := fun _ _ => Iff.rfl
      published_nodup := h.published_nodup
      claims_eq := h.claims_eq
      popped_self := by simp
      popped_other := fun p hp => by simp [hp]
      pops_nodup := by
        rw [List.map_append, List.map_singleton, ← List.concat_eq_append]
        exact h.pops_nodup.concat hnpop
      pops_ok := fun r hr => by
        rcases List.mem_append.mp hr with hr | hr
        · exact h.pops_ok r hr
        · rw [List.mem_singleton.mp hr]
          exact ⟨hout, haff⟩ }

/-- **Step lemma.** Every shared access of every process keeps the invariant. -/
theorem PhaseInv.run (h : PhaseInv c phase) (t : Process) :
    ∃ phase', PhaseInv (c.run t) phase' := by
  have hok := h.pcOk t
  cases hpc : c.pc t with
  | idle =>
    have hrun : c.run t = c := by simp only [Config.run, hpc]
    rw [hrun]; exact ⟨phase, h⟩
  | pushLoad desc =>
    have hrun : c.run t = c.goto t (.pushSequence desc c.queue.enqueuePos) := by
      simp only [Config.run, hpc]
    rw [hrun]; exact ⟨phase, h.goto le_rfl rfl⟩
  | pushSequence desc pos =>
    rw [hpc] at hok
    simp only [Config.run, hpc]
    split
    · next hd =>
      refine ⟨phase, h.goto ⟨hok, fun he => ?_⟩ rfl⟩
      exact h.opened_of_sequence he (diff_eq_zero hd)
    · split
      · exact ⟨phase, h.goto trivial rfl⟩
      · exact ⟨phase, h.goto trivial rfl⟩
  | pushClaim desc pos =>
    by_cases henq : c.queue.enqueuePos = pos
    · exact ⟨_, h.move (h.pushClaim_move hpc henq)⟩
    · simp only [Config.run, hpc, if_neg henq]
      exact ⟨phase, h.goto le_rfl rfl⟩
  | pushWrite desc pos => exact ⟨_, h.move (h.pushWrite_move hpc)⟩
  | pushPublish pos => exact ⟨_, h.move (h.pushPublish_move hpc)⟩
  | popLoad aff =>
    have hrun : c.run t = c.goto t (.popSequence aff c.queue.dequeuePos) := by
      simp only [Config.run, hpc]
    rw [hrun]; exact ⟨phase, h.goto le_rfl rfl⟩
  | popSequence aff pos =>
    rw [hpc] at hok
    simp only [Config.run, hpc]
    split
    · next hd =>
      have hpub : c.queue.dequeuePos = pos → phase pos = .published := fun he =>
        h.published_of_sequence he (diff_eq_zero hd)
      cases aff with
      | none =>
        refine ⟨phase, h.goto ⟨hok, fun he => ⟨hpub he, c.queue.descAt pos, ?_, ?_⟩⟩ rfl⟩
        · exact h.desc pos (by rw [hpub he]; trivial)
        · intro w hw; cases hw
      | some w => exact ⟨phase, h.goto ⟨hok, hpub⟩ rfl⟩
    · split
      · exact ⟨phase, h.goto trivial rfl⟩
      · exact ⟨phase, h.goto trivial rfl⟩
  | popPeek w pos =>
    rw [hpc] at hok
    obtain ⟨hle, hpub⟩ := hok
    simp only [Config.run, hpc]
    split
    · exact ⟨phase, h.goto trivial rfl⟩
    · next hw =>
      -- the descriptor peeked at is the pushed one as long as the cursor has not moved
      refine ⟨phase, h.goto ⟨hle, fun he => ⟨hpub he, c.queue.descAt pos, ?_, ?_⟩⟩ rfl⟩
      · exact h.desc pos (by rw [hpub he]; trivial)
      · intro w' hw'
        rw [← Option.some.inj hw']
        exact not_not.mp hw
  | popClaim aff pos =>
    by_cases hdeq : c.queue.dequeuePos = pos
    · exact ⟨_, h.move (h.popClaim_move hpc hdeq)⟩
    · simp only [Config.run, hpc, if_neg hdeq]
      exact ⟨phase, h.goto le_rfl rfl⟩
  | popCopy aff pos => exact ⟨_, h.move (h.popCopy_move hpc)⟩
  | popRelease aff pos out => exact ⟨_, h.move (h.popRelease_move hpc)⟩

theorem PhaseInv.step (h : PhaseInv c phase) (a : Action Process) :
    ∃ phase', PhaseInv (c.step a) phase' := by
  cases a with
  | run t => exact h.run t
  | call t op =>
    simp only [Config.step]
    split
    · refine ⟨phase, h.goto ?_ ?_⟩ <;> cases op <;> trivial
    · exact ⟨phase, h⟩

end Moves

section Runs
variable [DecidableEq Process] {capacity : QueueCapacity}

omit [DecidableEq Process] in
/-- The invariant holds of the empty queue, whose positions are all free. -/
theorem phaseInv_initial :
    PhaseInv (Config.initial capacity : Config Process) (fun _ => .free) where
  free_iff p := by simp [Config.initial, initInPlace]
  taken_iff p := by simp [Config.initial, initInPlace, Phase.IsTaken]
  window p hp := absurd rfl hp
  sequence p hop _ := by
    -- an open position of the empty queue lies in the first lap
    have hlt : p < (Config.initial capacity : Config Process).queue.cap := by
      by_contra hge
      have := hop (p - (Config.initial capacity : Config Process).queue.cap) (by omega)
      cases this
    have hslot := slot_eq (Config.initial capacity : Config Process).queue p
    rw [Nat.mod_eq_of_lt hlt] at hslot
    simp only [sequenceAt, hslot]
    rfl
  desc p hp := hp.elim
  pushes_length := rfl
  pcOk _ := trivial
  exclusive t u p ht := by cases ht
  published_iff p := by simp [Config.initial, Phase.IsPublished]
  published_nodup := List.nodup_nil
  claims_eq := rfl
  popped_iff p := by simp [Config.initial]
  pops_nodup := List.nodup_nil
  pops_ok r hr := by cases hr

theorem exists_phaseInv {c : Config Process} (h : (system Process capacity).Reachable c) :
    ∃ phase, PhaseInv c phase := by
  refine h.invariant (I := fun c => ∃ phase, PhaseInv c phase) ?_ ?_
  · rintro c rfl
    exact ⟨_, phaseInv_initial⟩
  · rintro c a c' ⟨phase, hinv⟩ rfl
    exact hinv.step a

/-- What a run of the queue promises its users. -/
structure Safe (c : Config Process) : Prop where
  /-- Every successful push has a position of its own. -/
  pushed_once : c.published.Nodup
  /-- No position, and so no pushed task, is popped twice. -/
  popped_once : (c.pops.map Pop.pos).Nodup
  /-- Every popped task was pushed: the pop returns the descriptor of its position. -/
  popped_pushed : ∀ r ∈ c.pops, r.pos ∈ c.published ∧ c.pushes[r.pos]? = some r.desc
  /-- A pushed task that no pop has returned is intact in its cell. -/
  not_overwritten : ∀ p ∈ c.published, p ∉ c.pops.map Pop.pos →
    c.pushes[p]? = some (c.queue.descAt p)
  /-- Consumers claim the queue positions in order, without gaps. -/
  in_order : c.claims = List.range c.queue.dequeuePos ∧
    ∀ r ∈ c.pops, r.pos ∈ c.claims
  /-- A pop for worker `w` returns a task addressed to worker `w`. -/
  affine : ∀ r ∈ c.pops, ∀ w, r.aff = some w → r.desc.workerIndex = w

/-- **Queue safety.** Whatever the capacity, and however the operations of any
number of processes interleave, no pushed task is popped twice or overwritten
before it is popped, every popped task was pushed, pops follow the queue
positions in order, and an affine pop returns only tasks of its worker. -/
theorem dsmTaskQueue_safe {c : Config Process} (h : (system Process capacity).Reachable c) :
    Safe c := by
  obtain ⟨phase, hinv⟩ := exists_phaseInv h
  have hreleased : ∀ r ∈ c.pops, phase r.pos = .released := fun r hr =>
    (hinv.popped_iff r.pos).mp (List.mem_map_of_mem hr)
  refine
    { pushed_once := hinv.published_nodup
      popped_once := hinv.pops_nodup
      popped_pushed := fun r hr => ⟨?_, (hinv.pops_ok r hr).1⟩
      not_overwritten := fun p hp hnp => hinv.desc p ?_
      in_order := ⟨hinv.claims_eq, fun r hr => ?_⟩
      affine := fun r hr => (hinv.pops_ok r hr).2 }
  · rw [hinv.published_iff, hreleased r hr]
    trivial
  · have hpub := (hinv.published_iff p).mp hp
    have hnr := mt (hinv.popped_iff p).mpr hnp
    cases hph : phase p with
    | published | taken | copied => trivial
    | released => exact absurd hph hnr
    | free | claimed | written => rw [hph] at hpub; exact hpub.elim
  · rw [hinv.claims_eq, List.mem_range, ← hinv.taken_iff, hreleased r hr]
    trivial

/-- One producer and one consumer over the smallest queue: the consumer for
worker `3` peeks, claims, copies and releases the task the producer pushed. -/
theorem dsmTaskQueue_safe_handoff :
    let desc : TaskDescriptor := ⟨7, 21, 0, 3, .run⟩
    let actions : List (Action Bool) :=
      [.call false (.tryPush desc), .run false, .run false, .run false, .run false, .run false,
        .call true (.tryPopForWorker 3), .run true, .run true, .run true, .run true, .run true,
        .run true]
    let c := actions.foldl Config.step (Config.initial ⟨2, by decide⟩)
    c.pops = [⟨0, some 3, desc⟩] ∧ Safe c :=
  ⟨by decide, dsmTaskQueue_safe (TransitionSystem.reachable_foldl _ (.initial rfl))⟩

end Runs

end QueueMachine
end PgYaap
