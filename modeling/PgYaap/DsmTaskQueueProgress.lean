import Mathlib
import PgYaap.DsmTaskQueueSafety

/-! # Full, empty and progress of the bounded task queue

A push compares the sequence number of its cell with its position, a pop with
the position after its own, and the sign of the difference decides between
claiming the cell, giving up and starting over. The sequence numbers are the
low 32 bits of numbers that keep growing, the wanted positions are cut to the
same 32 bits, but the difference is then taken of the two remainders and not
modulo `2 ^ 32`. It has the right sign while both numbers lie in the same block
of `2 ^ 32`. When the wanted position has entered the next block and the cell
has not, a full queue looks like one whose cursor has moved: the push starts
over, reads the same cursor, and never returns. A pop of an empty queue at
position `2 ^ 32 - 1` does the same. -/
namespace PgYaap
namespace QueueMachine
open DsmTaskQueue

section States
variable {Process : Type} (c : Config Process)

/-- The queue is full: the cell of the next push was not released by the pop
one lap earlier. -/
def Full : Prop :=
  c.queue.cap ≤ c.queue.enqueuePos ∧ c.queue.enqueuePos - c.queue.cap ∉ c.pops.map Pop.pos

/-- The queue is empty: the task of the next pop has not been published. -/
def Empty : Prop := c.queue.dequeuePos ∉ c.published

/-- The numbers stored so far in the cell of a position, before they were cut
to 32 bits. -/
def stored (pos : Nat) : List Nat :=
  (c.published.filter (· % c.queue.cap = pos % c.queue.cap)).map (· + 1) ++
    ((c.pops.map Pop.pos).filter (· % c.queue.cap = pos % c.queue.cap)).map (· + c.queue.cap)

/-- The number the cell of a position holds, before it was cut to 32 bits:
the greatest one stored in it, and its index before any store. -/
def ticketAt (pos : Nat) : Nat := (stored c pos).foldr max (pos % c.queue.cap)

theorem foldr_max_le {b n : Nat} (l : List Nat) :
    l.foldr max b ≤ n ↔ b ≤ n ∧ ∀ x ∈ l, x ≤ n := by
  induction l with
  | nil => simp
  | cons x l ih =>
    simp only [List.foldr_cons, max_le_iff, ih, List.mem_cons, forall_eq_or_imp]
    tauto

theorem ticketAt_le {pos n : Nat} :
    ticketAt c pos ≤ n ↔ pos % c.queue.cap ≤ n ∧
      (∀ q ∈ c.published, q % c.queue.cap = pos % c.queue.cap → q + 1 ≤ n) ∧
      ∀ q ∈ c.pops.map Pop.pos, q % c.queue.cap = pos % c.queue.cap → q + c.queue.cap ≤ n := by
  rw [ticketAt, foldr_max_le]
  refine and_congr_right fun _ => ?_
  constructor
  · intro h
    refine ⟨fun q hq hm => h _ ?_, fun q hq hm => h _ ?_⟩
    · exact List.mem_append_left _
        (List.mem_map.mpr ⟨q, List.mem_filter.mpr ⟨hq, decide_eq_true hm⟩, rfl⟩)
    · exact List.mem_append_right _
        (List.mem_map.mpr ⟨q, List.mem_filter.mpr ⟨hq, decide_eq_true hm⟩, rfl⟩)
  · rintro ⟨hpub, hpop⟩ x hx
    rcases List.mem_append.mp hx with hx | hx
    · obtain ⟨q, hq, rfl⟩ := List.mem_map.mp hx
      obtain ⟨hq, hm⟩ := List.mem_filter.mp hq
      exact hpub q hq (of_decide_eq_true hm)
    · obtain ⟨q, hq, rfl⟩ := List.mem_map.mp hx
      obtain ⟨hq, hm⟩ := List.mem_filter.mp hq
      exact hpop q hq (of_decide_eq_true hm)

/-- Positions of one cell hold one number. -/
theorem ticketAt_congr {p q : Nat} (h : p % c.queue.cap = q % c.queue.cap) :
    ticketAt c p = ticketAt c q := by
  simp only [ticketAt, stored, h]

end States

section Tickets
variable {Process : Type} {c : Config Process} {phase : Nat → Phase}

/-- An earlier position of an open position's cell is released, and lies at
least one lap back. -/
theorem PhaseInv.earlier (h : PhaseInv c phase) {q p : Nat} (hp : Opened c.queue.cap phase p)
    (hlt : q < p) (hm : q % c.queue.cap = p % c.queue.cap) :
    phase q = .released ∧ q + c.queue.cap ≤ p := by
  obtain ⟨k, hk⟩ : c.queue.cap ∣ p - q := (Nat.modEq_iff_dvd' hlt.le).mp hm
  cases k with
  | zero => omega
  | succ k =>
    have hle : c.queue.cap ≤ c.queue.cap * (k + 1) := Nat.le_mul_of_pos_right _ k.succ_pos
    exact ⟨h.released_of_opened hp k q (by rw [Nat.mul_comm]; omega), by omega⟩

/-- A position that is not free is not behind the current position of its cell. -/
theorem PhaseInv.le_current (h : PhaseInv c phase) {q p : Nat} (hp : phase p ≠ .released)
    (hq : phase q ≠ .free) (hm : q % c.queue.cap = p % c.queue.cap) : q ≤ p := by
  by_contra hlt
  exact hp (h.earlier (h.window q hq) (by omega) hm.symm).1

/-- **The number of a cell** is the ticket of its current position. -/
theorem PhaseInv.ticketAt_eq (h : PhaseInv c phase) {p : Nat}
    (hop : Opened c.queue.cap phase p) (hnr : phase p ≠ .released) :
    ticketAt c p = (phase p).ticket c.queue.cap p := by
  have hcap := (cap_bounds c.queue).1
  have hge : p ≤ (phase p).ticket c.queue.cap p := by cases phase p <;> simp [Phase.ticket]
  apply le_antisymm
  · rw [ticketAt_le]
    refine ⟨(Nat.mod_le _ _).trans hge, fun q hq hm => ?_, fun q hq hm => ?_⟩
    · have hpub := (h.published_iff q).mp hq
      have hfree : phase q ≠ .free := fun hf => by rw [hf] at hpub; exact hpub
      rcases (h.le_current hnr hfree hm).lt_or_eq with hlt | rfl
      · exact le_trans hlt hge
      · cases hph : phase q with
        | published | taken | copied => exact le_rfl
        | released => exact absurd hph hnr
        | free | claimed | written => rw [hph] at hpub; exact hpub.elim
    · have hrel := (h.popped_iff q).mp hq
      have hfree : phase q ≠ .free := fun hf => by rw [hf] at hrel; cases hrel
      rcases (h.le_current hnr hfree hm).lt_or_eq with hlt | rfl
      · exact ((h.earlier hop hlt hm).2).trans hge
      · exact absurd hrel hnr
  · obtain ⟨hidx, hpub, hpop⟩ := (ticketAt_le c).mp (le_refl (ticketAt c p))
    -- the position itself is the number its cell shows before it is published
    have hself : p ≤ ticketAt c p := by
      by_cases hlap : p < c.queue.cap
      · rwa [Nat.mod_eq_of_lt hlap] at hidx
      · have hprev := hop (p - c.queue.cap) (by omega)
        have := hpop _ ((h.popped_iff _).mpr hprev) (by
          rw [← Nat.add_mod_right (p - c.queue.cap), Nat.sub_add_cancel (by omega)])
        omega
    cases hph : phase p with
    | free | claimed | written => exact hself
    | published | taken | copied =>
      exact hpub p ((h.published_iff p).mpr (by rw [hph]; trivial)) rfl
    | released => exact absurd hph hnr

/-- Every cell has a current position. -/
theorem PhaseInv.exists_current (h : PhaseInv c phase) (pos : Nat) :
    ∃ p, p % c.queue.cap = pos % c.queue.cap ∧ Opened c.queue.cap phase p ∧
      phase p ≠ .released := by
  have hcap := (cap_bounds c.queue).1
  have hex : ∃ k, phase (pos % c.queue.cap + k * c.queue.cap) ≠ .released := by
    refine ⟨c.queue.enqueuePos, ?_⟩
    rw [(h.free_iff _).mpr]
    · decide
    · have := Nat.le_mul_of_pos_right c.queue.enqueuePos (show 0 < c.queue.cap by omega)
      omega
  classical
  refine ⟨pos % c.queue.cap + Nat.find hex * c.queue.cap, ?_, fun q hq => ?_, Nat.find_spec hex⟩
  · rw [Nat.add_mul_mod_self_right, Nat.mod_mod]
  · have hlt := Nat.mod_lt pos (show 0 < c.queue.cap by omega)
    cases hk : Nat.find hex with
    | zero => rw [hk] at hq; omega
    | succ k =>
      rw [hk, Nat.succ_mul, ← Nat.add_assoc] at hq
      have := Nat.find_min hex (show k < Nat.find hex by omega)
      rw [Nat.add_right_cancel hq]
      simpa using this

/-- The sequence number is the number of the cell, cut to 32 bits. -/
theorem PhaseInv.sequenceAt_eq (h : PhaseInv c phase) (pos : Nat) :
    c.queue.sequenceAt pos = UInt32.ofNat (ticketAt c pos) := by
  obtain ⟨p, hm, hop, hnr⟩ := h.exists_current pos
  have hslot : c.queue.sequenceAt pos = c.queue.sequenceAt p := by
    simp only [sequenceAt, slot_eq, hm]
  rw [hslot, h.sequence p hop hnr, ticketAt_congr c hm.symm, h.ticketAt_eq hop hnr]

/-- The number of a cell has reached every position that was opened in it. -/
theorem PhaseInv.le_ticketAt (h : PhaseInv c phase) {pos : Nat}
    (hop : Opened c.queue.cap phase pos) :
    pos ≤ ticketAt c pos ∧ ((phase pos).IsPublished → pos < ticketAt c pos) := by
  have hcap := (cap_bounds c.queue).1
  by_cases hrel : phase pos = .released
  · have hpop := ((ticketAt_le c).mp (le_refl (ticketAt c pos))).2.2 pos ((h.popped_iff pos).mpr hrel) rfl
    exact ⟨by omega, fun _ => by omega⟩
  · rw [h.ticketAt_eq hop hrel]
    cases hph : phase pos with
    | free | claimed | written =>
      exact ⟨le_rfl, fun hp => hp.elim⟩
    | published | taken | copied => exact ⟨Nat.le_succ _, fun _ => Nat.lt_succ_self _⟩
    | released => exact absurd hph hrel

/-- While an earlier lap occupies the cell of a position up to the producer
cursor, the number of the cell is behind the position, by less than `2 ^ 32`. -/
theorem PhaseInv.ticketAt_lt (h : PhaseInv c phase) {p : Nat}
    (hp : ¬ Opened c.queue.cap phase p) (hle : p ≤ c.queue.enqueuePos) :
    ticketAt c p < p ∧ p < ticketAt c p + 2 ^ 32 - 1 := by
  obtain ⟨hcap2, hcap31⟩ := cap_bounds c.queue
  obtain ⟨q, hqp, hq⟩ : ∃ q, q + c.queue.cap = p ∧ phase q ≠ .released := by
    simpa [Opened] using hp
  have hqfree : phase q ≠ .free := fun hf => by
    have := (h.free_iff q).mp hf
    omega
  have hm : p % c.queue.cap = q % c.queue.cap := by rw [← hqp, Nat.add_mod_right]
  rw [ticketAt_congr c hm, h.ticketAt_eq (h.window q hqfree) hq]
  cases hph : phase q with
  | released => exact absurd hph hq
  | free | claimed | written | published | taken | copied =>
    simp only [Phase.ticket]
    omega

/-- The queue is full exactly when the cell at the producer cursor is not open. -/
theorem PhaseInv.full_iff (h : PhaseInv c phase) :
    Full c ↔ ¬ Opened c.queue.cap phase c.queue.enqueuePos := by
  constructor
  · rintro ⟨hle, hpop⟩ hop
    exact hpop ((h.popped_iff _).mpr (hop _ (by omega)))
  · intro hno
    obtain ⟨q, hq, hrel⟩ : ∃ q, q + c.queue.cap = c.queue.enqueuePos ∧ phase q ≠ .released := by
      simpa [Opened] using hno
    refine ⟨by omega, fun hpop => hrel ?_⟩
    rw [← hq, Nat.add_sub_cancel] at hpop
    exact (h.popped_iff q).mp hpop

/-- The consumer cursor has not passed the producer cursor. -/
theorem PhaseInv.dequeue_le_enqueue (h : PhaseInv c phase) :
    c.queue.dequeuePos ≤ c.queue.enqueuePos := by
  by_contra hlt
  have ht := (h.taken_iff c.queue.enqueuePos).mpr (by omega)
  rw [(h.free_iff c.queue.enqueuePos).mpr le_rfl] at ht
  exact ht

/-- What a push finds: at the cursor the number is the position, or behind it
when the queue is full; at a position the cursor has passed it is not behind. -/
theorem PhaseInv.push_ticket (h : PhaseInv c phase) {pos : Nat} (hle : pos ≤ c.queue.enqueuePos) :
    (pos < c.queue.enqueuePos → pos ≤ ticketAt c pos) ∧
      (c.queue.enqueuePos = pos →
        (Full c → ticketAt c pos < pos ∧ pos < ticketAt c pos + 2 ^ 32) ∧
        (¬ Full c → ticketAt c pos = pos)) := by
  refine ⟨fun hlt => ?_, ?_⟩
  · have hnf := mt (h.free_iff pos).mp (by omega)
    exact (h.le_ticketAt (h.window pos hnf)).1
  · rintro rfl
    refine ⟨fun hfull => ?_, fun hnot => ?_⟩
    · have := h.ticketAt_lt (h.full_iff.mp hfull) le_rfl
      exact ⟨this.1, by omega⟩
    · have hop := not_not.mp (mt h.full_iff.mpr hnot)
      have hfree := (h.free_iff c.queue.enqueuePos).mpr le_rfl
      rw [h.ticketAt_eq hop (by rw [hfree]; decide), hfree]
      rfl

/-- What a pop finds: at the cursor the number is the position after it, or
behind that when the queue is empty; at a position the cursor has passed it is
not behind. -/
theorem PhaseInv.pop_ticket (h : PhaseInv c phase) {pos : Nat} (hle : pos ≤ c.queue.dequeuePos) :
    (pos < c.queue.dequeuePos → pos + 1 ≤ ticketAt c pos) ∧
      (c.queue.dequeuePos = pos →
        (Empty c → ticketAt c pos < pos + 1 ∧ pos + 1 < ticketAt c pos + 2 ^ 32) ∧
        (¬ Empty c → ticketAt c pos = pos + 1)) := by
  have henq := h.dequeue_le_enqueue
  refine ⟨fun hlt => ?_, ?_⟩
  · have ht := (h.taken_iff pos).mpr hlt
    have hnf := mt (h.free_iff pos).mp (by omega)
    refine (h.le_ticketAt (h.window pos hnf)).2 ?_
    cases hph : phase pos with
    | taken | copied | released => trivial
    | free | claimed | written | published => rw [hph] at ht; exact ht.elim
  · rintro rfl
    have hnt := mt (h.taken_iff c.queue.dequeuePos).mp (lt_irrefl _)
    have hnr : phase c.queue.dequeuePos ≠ .released := fun hr => hnt (by rw [hr]; trivial)
    have hpub := h.published_iff c.queue.dequeuePos
    refine ⟨fun hempty => ?_, fun hnot => ?_⟩
    · have hnp := mt hpub.mpr hempty
      by_cases hop : Opened c.queue.cap phase c.queue.dequeuePos
      · rw [h.ticketAt_eq hop hnr]
        cases hph : phase c.queue.dequeuePos with
        | free | claimed | written => simp only [Phase.ticket]; omega
        | published | taken | copied | released => rw [hph] at hnp; exact absurd trivial hnp
      · have := h.ticketAt_lt hop henq
        omega
    · have hp := hpub.mp (not_not.mp hnot)
      have hnf : phase c.queue.dequeuePos ≠ .free := fun hf => by rw [hf] at hp; exact hp
      rw [h.ticketAt_eq (h.window _ hnf) hnr]
      cases hph : phase c.queue.dequeuePos with
      | published => rfl
      | taken | copied | released => rw [hph] at hnt; exact absurd trivial hnt
      | free | claimed | written => rw [hph] at hp; exact hp.elim

end Tickets

section Answers
variable {Process : Type} [DecidableEq Process] (c : Config Process)

/-- What a test of a cell must come to, `next` being where the process goes:
it gives up only when the queue blocks it, it does give up when it has tested
the cell at the cursor of a queue that blocks it, and it starts over only when
other processes have moved the cursor on since it read it. -/
structure Verdict (next : Pc) (cursor pos : Nat) (blocked : Prop) (again : Pc) : Prop where
  reports : next = .idle → blocked
  reported : cursor = pos → blocked → next = .idle
  startsOver : next = again → pos < cursor

/-- The next shared access of a process is answered rightly: a push reports
full exactly when the queue is full, a pop reports empty exactly when it is
empty, and neither tries again without another process having moved on. -/
def Answers (t : Process) : Prop :=
  match c.pc t with
  | .pushSequence desc pos =>
    Verdict ((c.run t).pc t) c.queue.enqueuePos pos (Full c) (.pushLoad desc)
  | .pushClaim desc pos =>
    (c.run t).pc t = .pushSequence desc c.queue.enqueuePos → pos < c.queue.enqueuePos
  | .popSequence aff pos =>
    Verdict ((c.run t).pc t) c.queue.dequeuePos pos (Empty c) (.popLoad aff)
  | .popClaim aff pos =>
    (c.run t).pc t = .popSequence aff c.queue.dequeuePos → pos < c.queue.dequeuePos
  | _ => True

/-- The number of a cell and the wanted number compare as their low 32 bits do,
as far as it matters: the cell is not a block of `2 ^ 32` behind, and if it is
a block ahead with the smaller remainder, the queue blocks the process anyway. -/
def InBlock (number want : Nat) (blocked : Prop) : Prop :=
  ¬ number / 2 ^ 32 < want / 2 ^ 32 ∧
    (want / 2 ^ 32 < number / 2 ^ 32 → number % 2 ^ 32 < want % 2 ^ 32 → blocked)

/-- The next shared access of a process is not a test that mistakes a block of
`2 ^ 32` for another. -/
def InStep (t : Process) : Prop :=
  match c.pc t with
  | .pushSequence _ pos => InBlock (ticketAt c pos) pos (Full c)
  | .popSequence _ pos => InBlock (ticketAt c pos) (pos + 1) (Empty c)
  | _ => True

/-- The configuration after `n` further accesses of one process. -/
def alone (t : Process) (n : Nat) : Config Process := (fun c => c.run t)^[n] c

theorem alone_succ (t : Process) (n : Nat) : alone c t (n + 1) = alone (c.run t) t n := rfl

/-- How many accesses a process needs at most to return from where it stands
when it runs alone. -/
def remainingAt (q : DsmTaskQueue) : Pc → Nat
  | .idle => 0
  | .pushPublish _ | .popRelease .. => 1
  | .pushWrite .. | .popCopy .. => 2
  | .pushClaim _ pos => if q.enqueuePos = pos then 3 else 5
  | .pushSequence _ pos => if q.enqueuePos = pos then 4 else 6
  | .pushLoad _ => 5
  | .popClaim _ pos => if q.dequeuePos = pos then 3 else 6
  | .popPeek _ pos => if q.dequeuePos = pos then 4 else 7
  | .popSequence _ pos => if q.dequeuePos = pos then 5 else 8
  | .popLoad _ => 6

theorem remainingAt_le (q : DsmTaskQueue) (pc : Pc) : remainingAt q pc ≤ 8 := by
  unfold remainingAt
  split <;> first | omega | (split <;> omega)

end Answers

section Tests
variable {Process : Type} [DecidableEq Process] {c : Config Process} {phase : Nat → Phase}

theorem goto_self (c : Config Process) (t : Process) (pc : Pc) : (c.goto t pc).pc t = pc :=
  Function.update_self ..

/-- The difference has the sign of the comparison of the remainders. -/
theorem diff_ofNat (number want : Nat) :
    (diff (UInt32.ofNat number) want = 0 ↔ number % 2 ^ 32 = want % 2 ^ 32) ∧
      (diff (UInt32.ofNat number) want < 0 ↔ number % 2 ^ 32 < want % 2 ^ 32) := by
  simp only [diff, UInt32.toNat_ofNat']
  omega

/-- **A test is answered rightly exactly when it compares within a block.** The
number of the cell is at least the wanted one at a position the cursor has
passed; at the cursor it is the wanted one, or less than `2 ^ 32` behind it
when the queue blocks the process. -/
theorem verdict_iff (claim : Pc) {next again : Pc} {cursor pos number want : Nat}
    {blocked : Prop}
    (hnext : next = if diff (UInt32.ofNat number) want = 0 then claim
      else if diff (UInt32.ofNat number) want < 0 then .idle else again)
    (hclaim : claim ≠ .idle ∧ claim ≠ again) (hagain : again ≠ .idle) (hle : pos ≤ cursor)
    (hpast : pos < cursor → want ≤ number)
    (hat : cursor = pos → (blocked → number < want ∧ want < number + 2 ^ 32) ∧
      (¬ blocked → number = want)) :
    Verdict next cursor pos blocked again ↔ InBlock number want blocked := by
  obtain ⟨hzero, hneg⟩ := diff_ofNat number want
  simp only [hzero, hneg] at hnext
  rcases hle.lt_or_eq with hlt | heq
  · -- the cursor has moved on: only a false report can be wrong
    have hnumber := hpast hlt
    constructor
    · intro hv
      refine ⟨by omega, fun _ hmod => hv.reports ?_⟩
      rw [hnext, if_neg (by omega), if_pos hmod]
    · rintro ⟨-, hb⟩
      refine ⟨fun hidle => ?_, fun hc => absurd hc (by omega), fun _ => hlt⟩
      by_cases hmod : number % 2 ^ 32 < want % 2 ^ 32
      · exact hb (by omega) hmod
      · rw [hnext] at hidle
        split at hidle
        · exact absurd hidle hclaim.1
        · exact absurd hidle hagain
  · obtain ⟨hblocked, hfree⟩ := hat heq.symm
    by_cases hb : blocked
    · -- at the cursor of a blocked queue: the number is behind
      obtain ⟨hlt, hgap⟩ := hblocked hb
      constructor
      · intro hv
        have hidle := hv.reported heq.symm hb
        refine ⟨fun hblock => ?_, fun hblock => absurd hblock (by omega)⟩
        rw [hnext, if_neg (by omega), if_neg (by omega)] at hidle
        exact hagain hidle
      · rintro ⟨hblock, -⟩
        have hidle : next = .idle := by rw [hnext, if_neg (by omega), if_pos (by omega)]
        exact ⟨fun _ => hb, fun _ _ => hidle, fun ha => absurd (ha.symm.trans hidle) hagain⟩
    · -- at the cursor of a queue that does not block: the cell can be claimed
      have heqn := hfree hb
      have hnext' : next = claim := by rw [hnext, if_pos (by rw [heqn])]
      constructor
      · exact fun _ => ⟨by omega, fun _ => by omega⟩
      · exact fun _ => ⟨fun hi => absurd (hnext'.symm.trans hi) hclaim.1, fun _ h => absurd h hb,
          fun ha => absurd (hnext'.symm.trans ha) hclaim.2⟩

/-- **Every access, in every state.** It is answered rightly exactly when it
does not mistake a block of `2 ^ 32` for another. -/
theorem PhaseInv.answers_iff (h : PhaseInv c phase) (t : Process) :
    Answers c t ↔ InStep c t := by
  have hok := h.pcOk t
  unfold Answers InStep
  cases hpc : c.pc t with
  | pushSequence desc pos =>
    rw [hpc] at hok
    obtain ⟨hpast, hat⟩ := h.push_ticket hok
    refine verdict_iff (.pushClaim desc pos) ?_ (by simp) (by simp) hok hpast hat
    simp only [Config.run, hpc, h.sequenceAt_eq pos]
    split_ifs <;> exact goto_self ..
  | popSequence aff pos =>
    rw [hpc] at hok
    obtain ⟨hpast, hat⟩ := h.pop_ticket hok
    cases aff with
    | none =>
      refine verdict_iff (.popClaim none pos) ?_ (by simp) (by simp) hok hpast hat
      simp only [Config.run, hpc, h.sequenceAt_eq pos]
      split_ifs <;> exact goto_self ..
    | some w =>
      refine verdict_iff (.popPeek w pos) ?_ (by simp) (by simp) hok hpast hat
      simp only [Config.run, hpc, h.sequenceAt_eq pos]
      split_ifs <;> exact goto_self ..
  | pushClaim desc pos =>
    rw [hpc] at hok
    refine iff_of_true (fun hlost => lt_of_le_of_ne hok.1 fun heq => ?_) trivial
    simp only [Config.run, hpc, if_pos heq.symm] at hlost
    exact absurd ((goto_self ..).symm.trans hlost) (by simp)
  | popClaim aff pos =>
    rw [hpc] at hok
    refine iff_of_true (fun hlost => lt_of_le_of_ne hok.1 fun heq => ?_) trivial
    simp only [Config.run, hpc, if_pos heq.symm] at hlost
    exact absurd ((goto_self ..).symm.trans hlost) (by simp)
  | _ => exact Iff.rfl

/-- An access that is answered rightly brings the process closer to its return. -/
theorem remainingAt_run {t : Process} (ha : Answers c t) (hbusy : c.pc t ≠ .idle) :
    remainingAt (c.run t).queue ((c.run t).pc t) < remainingAt c.queue (c.pc t) := by
  have hgoto : ∀ pc, (c.goto t pc).pc t = pc := goto_self c t
  have hqueue : ∀ pc, (c.goto t pc).queue = c.queue := fun _ => rfl
  unfold Answers at ha
  cases hpc : c.pc t with
  | idle => exact absurd hpc hbusy
  | pushPublish | pushWrite | popRelease | popCopy | pushLoad | popLoad =>
    simp [remainingAt, Config.run, hpc, hgoto, hqueue]
  | pushClaim desc pos =>
    by_cases heq : c.queue.enqueuePos = pos
    · simp [remainingAt, Config.run, hpc, heq, hgoto]
    · simp [remainingAt, Config.run, hpc, heq, hgoto, hqueue]
  | popClaim aff pos =>
    by_cases heq : c.queue.dequeuePos = pos
    · simp [remainingAt, Config.run, hpc, heq, hgoto]
    · simp [remainingAt, Config.run, hpc, heq, hgoto, hqueue]
  | popPeek w pos =>
    by_cases hw : (c.queue.descAt pos).workerIndex = w
    · simp only [remainingAt, Config.run, hpc, hw, hgoto, hqueue, ne_eq, not_true, if_false]
      split <;> omega
    · simp only [remainingAt, Config.run, hpc, hw, hgoto, ne_eq, not_false_eq_true, if_true]
      split <;> omega
  | pushSequence desc pos =>
    rw [hpc] at ha
    have hover := ha.startsOver
    by_cases hz : diff (c.queue.sequenceAt pos) pos = 0
    · simp only [remainingAt, Config.run, hpc, hz, hgoto, hqueue, if_true]
      split <;> omega
    · by_cases hn : diff (c.queue.sequenceAt pos) pos < 0
      · simp only [remainingAt, Config.run, hpc, hz, hn, hgoto, if_true, if_false]
        split <;> omega
      · simp only [Config.run, hpc, hz, hn, hgoto, if_false, forall_const] at hover
        simp only [remainingAt, Config.run, hpc, hz, hn, hgoto, if_false]
        rw [if_neg (by omega)]
        omega
  | popSequence aff pos =>
    rw [hpc] at ha
    have hover := ha.startsOver
    by_cases hz : diff (c.queue.sequenceAt pos) (pos + 1) = 0
    · cases aff <;>
      · simp only [remainingAt, Config.run, hpc, hz, hgoto, hqueue, if_true]
        split <;> omega
    · by_cases hn : diff (c.queue.sequenceAt pos) (pos + 1) < 0
      · simp only [remainingAt, Config.run, hpc, hz, hn, hgoto, if_true, if_false]
        split <;> omega
      · simp only [Config.run, hpc, hz, hn, hgoto, if_false, forall_const] at hover
        simp only [remainingAt, Config.run, hpc, hz, hn, hgoto, if_false]
        rw [if_neg (by omega)]
        omega

end Tests

section Progress
variable {Process : Type} [DecidableEq Process] {capacity : QueueCapacity} {c : Config Process}

theorem reachable_step (h : (system Process capacity).Reachable c) (a : Action Process) :
    (system Process capacity).Reachable (c.step a) := .step h rfl

theorem reachable_alone (h : (system Process capacity).Reachable c) (t : Process) (n : Nat) :
    (system Process capacity).Reachable (alone c t n) := by
  induction n generalizing c with
  | zero => exact h
  | succ n ih => exact ih (reachable_step h (.run t))

/-- A process whose accesses are all answered rightly returns, alone, within as
many of them as remain. -/
theorem returns (t : Process) (k : Nat)
    (hk : remainingAt c.queue (c.pc t) ≤ k) (ha : ∀ n, Answers (alone c t n) t) :
    ∃ n ≤ k, (alone c t n).pc t = .idle := by
  induction k generalizing c with
  | zero =>
    refine ⟨0, le_rfl, ?_⟩
    by_contra hbusy
    have hlt := remainingAt_run (ha 0) hbusy
    change _ < remainingAt c.queue (c.pc t) at hlt
    omega
  | succ k ih =>
    by_cases hidle : c.pc t = .idle
    · exact ⟨0, Nat.zero_le _, hidle⟩
    · have hlt := remainingAt_run (ha 0) hidle
      change _ < remainingAt c.queue (c.pc t) at hlt
      obtain ⟨n, hn, hret⟩ := ih (c := c.run t) (Nat.le_of_lt_succ (hlt.trans_le hk))
        fun n => ha (n + 1)
      exact ⟨n + 1, by omega, hret⟩

/-- **Answers and progress.** Take any state that any interleaving of pushes and
pops reaches, and let one process go on alone. All its tests come out right
(full exactly when the queue is full, empty exactly when it is empty, no retry
unless the cursor has moved on) and it returns within eight accesses, exactly
when none of them compares numbers of different blocks of `2 ^ 32` in a way
that matters. -/
theorem dsmTaskQueue_answers_iff (h : (system Process capacity).Reachable c) (t : Process) :
    ((∀ n, Answers (alone c t n) t) ∧ ∃ n ≤ 8, (alone c t n).pc t = .idle) ↔
      ∀ n, InStep (alone c t n) t := by
  have hiff : ∀ n, Answers (alone c t n) t ↔ InStep (alone c t n) t := fun n => by
    obtain ⟨phase, hinv⟩ := exists_phaseInv (reachable_alone h t n)
    exact hinv.answers_iff t
  constructor
  · exact fun hboth n => (hiff n).mp (hboth.1 n)
  · intro hstep
    have ha := fun n => (hiff n).mpr (hstep n)
    exact ⟨ha, returns t 8 (remainingAt_le c.queue (c.pc t)) ha⟩

/-- An idle process stays where it is. -/
theorem alone_idle {t : Process} (h : c.pc t = .idle) (n : Nat) : alone c t n = c := by
  induction n with
  | zero => rfl
  | succ n ih =>
    have hrun : c.run t = c := by simp only [Config.run, h]
    rw [alone_succ, hrun]
    exact ih

/-- The first pop of a fresh queue finds it empty and returns. -/
theorem dsmTaskQueue_answers_iff_fresh :
    let c := (Config.initial ⟨2, by decide⟩ : Config Unit).step (.call () .tryPop)
    (∀ n, Answers (alone c () n) ()) ∧ ∃ n ≤ 8, (alone c () n).pc () = .idle := by
  intro c
  have hr : (system Unit ⟨2, by decide⟩).Reachable c :=
    reachable_step (.initial rfl) (.call () .tryPop)
  refine (dsmTaskQueue_answers_iff hr ()).mpr fun n => ?_
  match n with
  | 0 => exact trivial
  | 1 => exact ⟨by decide, fun h => absurd h (by decide)⟩
  | n + 2 =>
    have hidle : (alone c () 2).pc () = .idle := by decide
    rw [alone_succ, alone_succ, show (c.run ()).run () = alone c () 2 from rfl, alone_idle hidle]
    unfold InStep
    rw [hidle]
    trivial

end Progress

section Wrap
variable {capacity : QueueCapacity}

/-- One process pushes a task and pops it again. -/
def handoff (desc : TaskDescriptor) : List (Action Unit) :=
  .call () (.tryPush desc) :: List.replicate 5 (.run ()) ++
    .call () .tryPop :: List.replicate 5 (.run ())

/-- No operation is under way, the queue is empty with both cursors at `k`, and
every cell holds the position it serves next. -/
structure Quiet (c : Config Unit) (k : Nat) : Prop where
  idle : c.pc () = .idle
  enqueuePos : c.queue.enqueuePos = k
  dequeuePos : c.queue.dequeuePos = k
  sequence : ∀ p, k ≤ p → p < k + c.queue.cap → c.queue.sequenceAt p = UInt32.ofNat p

theorem diff_self (n : Nat) : diff (UInt32.ofNat n) n = 0 := (diff_ofNat n n).1.mpr rfl

/-- Handing a task over moves both cursors on and leaves the queue quiet. -/
theorem Quiet.handoff {c : Config Unit} {k : Nat} (h : Quiet c k) (desc : TaskDescriptor) :
    Quiet ((handoff desc).foldl Config.step c) (k + 1) := by
  obtain ⟨hidle, henq, hdeq, hseq⟩ := h
  have hcap := (cap_bounds c.queue).1
  have hk := hseq k le_rfl (by omega)
  have hpublished : ∀ q : DsmTaskQueue,
      diff ((q.setSequence k (UInt32.ofNat k + 1)).sequenceAt k) (k + 1) = 0 := by
    intro q
    rw [sequenceAt_setSequence, if_pos rfl, ← UInt32.ofNat_one, ← UInt32.ofNat_add]
    exact diff_self (k + 1)
  simp only [QueueMachine.handoff, List.replicate, List.cons_append, List.nil_append,
    List.foldl_cons, List.foldl_nil, Config.step, Config.run, Config.goto, Op.entry, if_true,
    hidle, henq, hdeq, hk, diff_self, hpublished, Function.update_self, Function.update_idem,
    UInt32.ofNat_add, UInt32.ofNat_one, setSequence_dequeuePos, setDesc_dequeuePos,
    setSequence_enqueuePos, setDesc_enqueuePos]
  refine ⟨by simp only [Function.update_self], rfl, rfl, fun p hle hlt => ?_⟩
  change p < k + 1 + c.queue.cap at hlt
  rw [← UInt32.ofNat_add]
  refine (sequenceAt_setSequence ..).trans ?_
  change (if p % c.queue.cap = k % c.queue.cap then UInt32.ofNat (k + c.queue.cap) else _) = _
  by_cases hm : p % c.queue.cap = k % c.queue.cap
  · -- the released cell now waits for the position one lap later
    have hp : p = k + c.queue.cap := by
      have hd := (Nat.modEq_iff_dvd' (show k ≤ p by omega)).mp hm.symm
      have := Nat.le_of_dvd (by omega) hd
      omega
    rw [if_pos hm, hp]
  · rw [if_neg hm]
    change ((DsmTaskQueue.setDesc _ k desc).setSequence k _).sequenceAt p = _
    refine (sequenceAt_setSequence ..).trans ((if_neg hm).trans ?_)
    rw [sequenceAt_setDesc]
    refine hseq p (by omega) ?_
    rcases Nat.lt_or_ge p (k + c.queue.cap) with h | h
    · exact h
    · exact absurd (by rw [show p = k + c.queue.cap by omega, Nat.add_mod_right]) hm

/-- The queue of capacity two, in which `n` tasks have been handed over. -/
def afterHandoffs (desc : TaskDescriptor) (n : Nat) : Config Unit :=
  (List.replicate n (handoff desc)).flatten.foldl Config.step (.initial ⟨2, by decide⟩)

theorem quiet_afterHandoffs (desc : TaskDescriptor) (n : Nat) :
    Quiet (afterHandoffs desc n) n := by
  induction n with
  | zero =>
    refine ⟨rfl, rfl, rfl, fun p _ hlt => ?_⟩
    change p < 0 + 2 at hlt
    exact phaseInv_initial.sequence p (fun q (hq : q + 2 = p) => by omega) (by decide)
  | succ n ih =>
    have hsucc : afterHandoffs desc (n + 1) =
        (handoff desc).foldl Config.step (afterHandoffs desc n) := by
      simp only [afterHandoffs, List.replicate_succ', List.flatten_append, List.flatten_singleton,
        List.foldl_append]
    rw [hsucc]
    exact ih.handoff desc

/-- A pop of the empty queue at the last position of a block of `2 ^ 32`: the
cell holds `2 ^ 32 - 1`, the wanted number is cut to `0`, and the pop starts
over for as long as nobody else moves. -/
theorem Quiet.pop_spins {c : Config Unit} {k : Nat} (h : Quiet c k)
    (hlast : (k + 1) % 2 ^ 32 = 0) (n : Nat) :
    (alone (c.step (.call () .tryPop)) () n).queue = c.queue ∧
      ((alone (c.step (.call () .tryPop)) () n).pc () = .popLoad none ∨
        (alone (c.step (.call () .tryPop)) () n).pc () = .popSequence none k) := by
  have hcap := (cap_bounds c.queue).1
  have hseq : diff (c.queue.sequenceAt k) (k + 1) = k % 2 ^ 32 := by
    rw [h.sequence k le_rfl (by omega), diff, UInt32.toNat_ofNat', UInt32.toNat_ofNat', hlast]
    simp
  have hstep : ∀ d : Config Unit, d.queue = c.queue →
      d.pc () = .popLoad none ∨ d.pc () = .popSequence none k →
      (d.run ()).queue = c.queue ∧
        ((d.run ()).pc () = .popLoad none ∨ (d.run ()).pc () = .popSequence none k) := by
    rintro d hq (hpc | hpc)
    · simp only [Config.run, hpc, hq, h.dequeuePos]
      exact ⟨hq, Or.inr (goto_self ..)⟩
    · simp only [Config.run, hpc, hq, hseq]
      rw [if_neg (by omega), if_neg (by omega)]
      exact ⟨hq, Or.inl (goto_self ..)⟩
  have hcall : c.step (.call () .tryPop) = c.goto () (.popLoad none) := by
    simp only [Config.step, h.idle, if_true, Op.entry]
  have hrun : ∀ n, ∀ d : Config Unit, d.queue = c.queue →
      d.pc () = .popLoad none ∨ d.pc () = .popSequence none k →
      (alone d () n).queue = c.queue ∧
        ((alone d () n).pc () = .popLoad none ∨ (alone d () n).pc () = .popSequence none k) := by
    intro n
    induction n with
    | zero => exact fun d hq hpc => ⟨hq, hpc⟩
    | succ n ih =>
      intro d hq hpc
      obtain ⟨hq', hpc'⟩ := hstep d hq hpc
      exact ih (d.run ()) hq' hpc'
  rw [hcall]
  exact hrun n _ rfl (Or.inl (goto_self ..))

theorem reachable_afterHandoffs (desc : TaskDescriptor) (n : Nat) :
    (system Unit ⟨2, by decide⟩).Reachable (afterHandoffs desc n) :=
  TransitionSystem.reachable_foldl _ (.initial rfl)

/-- With both cursors at one position, the queue is empty. -/
theorem empty_of_cursors {c : Config Unit} (hr : (system Unit capacity).Reachable c)
    (h : c.queue.enqueuePos = c.queue.dequeuePos) : Empty c := by
  obtain ⟨phase, hinv⟩ := exists_phaseInv hr
  intro hpub
  have hp := (hinv.published_iff _).mp hpub
  rw [(hinv.free_iff _).mpr h.le] at hp
  exact hp

/-- After `2 ^ 32 - 1` tasks have gone through a queue of capacity two, one at
a time, a pop of the empty queue never returns. -/
theorem tryPop_spins_at_wrap :
    let c := (afterHandoffs zeroDescriptor (2 ^ 32 - 1)).step (.call () .tryPop)
    (system Unit ⟨2, by decide⟩).Reachable c ∧ ∀ n, Empty (alone c () n) ∧
      (alone c () n).pc () ≠ .idle := by
  have hquiet := quiet_afterHandoffs zeroDescriptor (2 ^ 32 - 1)
  have hr := reachable_afterHandoffs zeroDescriptor (2 ^ 32 - 1)
  generalize afterHandoffs zeroDescriptor (2 ^ 32 - 1) = c at hquiet hr
  have hr' := reachable_step hr (.call () .tryPop)
  refine ⟨hr', fun n => ?_⟩
  obtain ⟨hq, hpc⟩ := hquiet.pop_spins (by norm_num) n
  constructor
  · apply empty_of_cursors (reachable_alone hr' () n)
    rw [hq, hquiet.enqueuePos, hquiet.dequeuePos]
  · rcases hpc with hpc | hpc <;> rw [hpc] <;> simp

end Wrap
end QueueMachine
end PgYaap
