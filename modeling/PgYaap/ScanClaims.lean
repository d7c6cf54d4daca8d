import Mathlib
import PgYaap.TransitionSystem

/-! # Claims of a cooperative scan

`TupleDataCollectionClaimScanRow` hands out the rows of a collection one at a time:
it takes a snapshot of the row count, adds one to the shared scan cursor and
returns the old value when that is a row. A claim past the end tries to put the
cursor back with one compare-and-swap, which another worker's claim can make fail.

Every access to the shared counters is one step, so a run is an arbitrary
interleaving of the calls of arbitrarily many workers, each of which calls again
and again. The cursor keeps its 32 bits and wraps: rewinding is best effort only,
so workers that keep calling past the end can drive it to the wrap, after which
the rows are handed out again. -/
namespace PgYaap
namespace ScanClaims
open TransitionSystem

/-- `TDC_INVALID_ROW_INDEX`, the end answer. -/
def invalidRowIndex : UInt32 := 0xFFFFFFFF

/-- Where a worker stands inside `TupleDataCollectionClaimScanRow`, with the locals
it holds there. Each constructor other than `idle` names the shared access the
worker performs next. -/
inductive Pc
  | idle
  | fetchAdd (total : UInt32)
  | compareExchange (total expected : UInt32)
deriving DecidableEq

/-- The two counters a scan uses, the program counter of every worker, and the
answers given so far. -/
structure Config (Worker : Type) where
  rowCount : UInt32
  scanCursor : UInt32
  pc : Worker → Pc
  answers : List (Worker × UInt32)

variable {Worker : Type} [DecidableEq Worker]

/-- Move one worker; the others stay where they are. -/
def Config.goto (c : Config Worker) (w : Worker) (pc : Pc) : Config Worker :=
  { c with pc := Function.update c.pc w pc }

/-- Return a row index to the caller. -/
def Config.ret (c : Config Worker) (w : Worker) (row : UInt32) : Config Worker :=
  { c.goto w .idle with answers := c.answers ++ [(w, row)] }

/-- The next shared access of a worker. From `idle` it calls the function, whose
first access is the snapshot of the row count. -/
def step (c : Config Worker) (w : Worker) : Config Worker :=
  match c.pc w with
  | .idle => c.goto w (.fetchAdd c.rowCount)
  | .fetchAdd total =>
    let claimed := c.scanCursor
    let fetched := { c with scanCursor := c.scanCursor + 1 }
    if total ≤ claimed then fetched.goto w (.compareExchange total (claimed + 1))
    else fetched.ret w claimed
  | .compareExchange total expected =>
    if c.scanCursor = expected then { c with scanCursor := total }.ret w invalidRowIndex
    else c.ret w invalidRowIndex

/-- A collection whose scan has not begun: `TupleDataCollectionInit` and
`TupleDataCollectionResetScan` leave the cursor at zero. -/
def start (rowCount : UInt32) : Config Worker := ⟨rowCount, 0, fun _ => .idle, []⟩

/-- The configuration after a schedule of steps. -/
def run (rowCount : UInt32) (schedule : List Worker) : Config Worker :=
  schedule.foldl step (start rowCount)

/-- The rows handed out in a list of answers. -/
def claimedRows (answers : List (Worker × UInt32)) : List UInt32 :=
  (answers.map Prod.snd).filter (· ≠ invalidRowIndex)

/-- **What a scan promises.** Only rows of the collection are handed out, none of
them twice, and an end answer is given only when every row has been handed out. -/
structure ClaimsRows (rowCount : UInt32) (answers : List (Worker × UInt32)) : Prop where
  rows : ∀ row ∈ claimedRows answers, row < rowCount
  once : (claimedRows answers).Nodup
  ends : RecordedUnder (fun before answer => answer.2 = invalidRowIndex →
    ∀ row < rowCount, (claimedRows before).count row = 1) answers

/-- The end answer reaches a worker that has taken enough steps. -/
def AnswersEnd (rowCount : UInt32) (schedule : List Worker) : Prop :=
  ∀ w, 2 * rowCount.toNat + 3 ≤ schedule.count w →
    (w, invalidRowIndex) ∈ (run rowCount schedule).answers

/-- The step does not add one to a cursor that stands at `UINT32_MAX`. -/
def CursorInRange (c : Config Worker) (w : Worker) : Prop :=
  ∀ total, c.pc w = .fetchAdd total → c.scanCursor.toNat + 1 < 2 ^ 32

/-! ## What one step can do -/

section Steps
variable {c : Config Worker} {w : Worker} {total expected : UInt32}

theorem step_idle (h : c.pc w = .idle) : step c w = c.goto w (.fetchAdd c.rowCount) := by
  unfold step
  rw [h]

theorem step_claim (h : c.pc w = .fetchAdd total) (hrow : c.scanCursor < total) :
    step c w = { c with scanCursor := c.scanCursor + 1 }.ret w c.scanCursor := by
  unfold step
  rw [h]
  exact if_neg (UInt32.not_le.mpr hrow)

theorem step_overClaim (h : c.pc w = .fetchAdd total) (hend : total ≤ c.scanCursor) :
    step c w = { c with scanCursor := c.scanCursor + 1 }.goto w
      (.compareExchange total (c.scanCursor + 1)) := by
  unfold step
  rw [h]
  exact if_pos hend

theorem step_rewind (h : c.pc w = .compareExchange total expected)
    (heq : c.scanCursor = expected) :
    step c w = { c with scanCursor := total }.ret w invalidRowIndex := by
  unfold step
  rw [h]
  exact if_pos heq

theorem step_leave (h : c.pc w = .compareExchange total expected)
    (hne : c.scanCursor ≠ expected) : step c w = c.ret w invalidRowIndex := by
  unfold step
  rw [h]
  exact if_neg hne

end Steps

omit [DecidableEq Worker] in
theorem claimedRows_append (answers : List (Worker × UInt32)) (w : Worker) (row : UInt32) :
    claimedRows (answers ++ [(w, row)]) =
      claimedRows answers ++ if row = invalidRowIndex then [] else [row] := by
  unfold claimedRows
  rw [List.map_append, List.filter_append]
  by_cases h : row = invalidRowIndex
  · rw [if_pos h]
    simp [h]
  · rw [if_neg h]
    simp [h]

/-! ## The invariant of a scan -/

/-- What a worker inside the function knows. -/
def Knows (c : Config Worker) : Pc → Prop
  | .idle => True
  | .fetchAdd total => total = c.rowCount
  | .compareExchange total expected =>
    total = c.rowCount ∧ c.rowCount < expected ∧ c.rowCount ≤ c.scanCursor

/-- **The invariant.** The rows handed out are those below the cursor, in order;
a worker that found the end knows that the cursor has passed the last row. -/
structure Inv (c : Config Worker) : Prop where
  claimed : (claimedRows c.answers).map UInt32.toNat =
    List.range (min c.scanCursor.toNat c.rowCount.toNat)
  ends : RecordedUnder (fun before answer => answer.2 = invalidRowIndex →
    ∀ row < c.rowCount, (claimedRows before).count row = 1) c.answers
  knows : ∀ w, Knows c (c.pc w)

omit [DecidableEq Worker] in
theorem Inv.start (rowCount : UInt32) : Inv (start rowCount : Config Worker) := by
  refine ⟨?_, ?_, fun w => trivial⟩
  · show [] = List.range (min 0 rowCount.toNat)
    rw [Nat.zero_min]
    rfl
  · intro pre x post h
    cases pre <;> cases h

section Invariant
variable {c : Config Worker} {w : Worker}

omit [DecidableEq Worker] in
theorem Inv.nodup (h : Inv c) : (claimedRows c.answers).Nodup :=
  List.Nodup.of_map UInt32.toNat (by rw [h.claimed]; exact List.nodup_range)

omit [DecidableEq Worker] in
theorem Inv.rows (h : Inv c) : ∀ row ∈ claimedRows c.answers, row < c.rowCount := by
  intro row hrow
  have hmem := List.mem_map_of_mem (f := UInt32.toNat) hrow
  rw [h.claimed, List.mem_range] at hmem
  rw [UInt32.lt_iff_toNat_lt]
  omega

omit [DecidableEq Worker] in
/-- Once the cursor has passed the last row, every row has been handed out once. -/
theorem Inv.count (h : Inv c) (hend : c.rowCount ≤ c.scanCursor) :
    ∀ row < c.rowCount, (claimedRows c.answers).count row = 1 := by
  intro row hrow
  rw [UInt32.le_iff_toNat_le] at hend
  rw [UInt32.lt_iff_toNat_lt] at hrow
  have hmem : row.toNat ∈ (claimedRows c.answers).map UInt32.toNat := by
    rw [h.claimed, List.mem_range]
    omega
  obtain ⟨row', hrow', heq⟩ := List.mem_map.mp hmem
  rw [← UInt32.toNat_inj.mp heq]
  exact List.count_eq_one_of_mem h.nodup hrow'

omit [DecidableEq Worker] in
theorem Inv.claimsRows (h : Inv c) : ClaimsRows c.rowCount c.answers := ⟨h.rows, h.nodup, h.ends⟩

/-- What the workers know outlives a move of one of them. -/
theorem Inv.knows_update {c' : Config Worker} {pc : Pc} (h : Inv c)
    (hpc : c'.pc = Function.update c.pc w pc) (hrows : c'.rowCount = c.rowCount)
    (hcursor : c.rowCount ≤ c.scanCursor → c.rowCount ≤ c'.scanCursor) (hw : Knows c' pc) :
    ∀ v, Knows c' (c'.pc v) := by
  intro v
  rw [hpc]
  by_cases hv : v = w
  · rw [hv, Function.update_self]
    exact hw
  · rw [Function.update_of_ne hv]
    have hknown := h.knows v
    cases hat : c.pc v with
    | idle => trivial
    | fetchAdd total =>
      rw [hat] at hknown
      show total = c'.rowCount
      rw [hrows]
      exact hknown
    | compareExchange total expected =>
      rw [hat] at hknown
      show total = c'.rowCount ∧ c'.rowCount < expected ∧ c'.rowCount ≤ c'.scanCursor
      rw [hrows]
      exact ⟨hknown.1, hknown.2.1, hcursor hknown.2.2⟩

/-- An end answer after the cursor has passed the last row. -/
theorem Inv.ret_end (h : Inv c) (hend : c.rowCount ≤ c.scanCursor) {cursor : UInt32}
    (hcursor : c.rowCount ≤ cursor) :
    Inv ({ c with scanCursor := cursor }.ret w invalidRowIndex) := by
  constructor
  · show (claimedRows (c.answers ++ [(w, invalidRowIndex)])).map UInt32.toNat =
      List.range (min cursor.toNat c.rowCount.toNat)
    rw [claimedRows_append, if_pos rfl, List.append_nil, h.claimed]
    rw [UInt32.le_iff_toNat_le] at hend hcursor
    rw [Nat.min_eq_right hend, Nat.min_eq_right hcursor]
  · exact h.ends.append fun _ => h.count hend
  · exact h.knows_update rfl rfl (fun _ => hcursor) trivial

/-- **One step keeps the invariant**, when it does not make the cursor wrap. -/
theorem Inv.step (h : Inv c) (hok : CursorInRange c w) : Inv (step c w) := by
  have hknown := h.knows w
  cases hat : c.pc w with
  | idle =>
    rw [step_idle hat]
    exact ⟨h.claimed, h.ends, h.knows_update rfl rfl id rfl⟩
  | fetchAdd total =>
    have hrange := hok total hat
    have hnext : (c.scanCursor + 1).toNat = c.scanCursor.toNat + 1 := by
      rw [UInt32.toNat_add]
      exact Nat.mod_eq_of_lt hrange
    rw [hat] at hknown
    obtain rfl : total = c.rowCount := hknown
    by_cases hend : c.rowCount ≤ c.scanCursor
    · -- the claim is past the end: the cursor moves on, and no row is handed out
      rw [step_overClaim hat hend]
      rw [UInt32.le_iff_toNat_le] at hend
      refine ⟨?_, h.ends, h.knows_update rfl rfl (fun _ => ?_) ⟨rfl, ?_, ?_⟩⟩
      · show _ = List.range (min (c.scanCursor + 1).toNat c.rowCount.toNat)
        rw [hnext, Nat.min_eq_right (by omega)]
        exact h.claimed.trans (by rw [Nat.min_eq_right hend])
      · show c.rowCount ≤ c.scanCursor + 1
        rw [UInt32.le_iff_toNat_le]
        omega
      · show c.rowCount < c.scanCursor + 1
        rw [UInt32.lt_iff_toNat_lt]
        omega
      · show c.rowCount ≤ c.scanCursor + 1
        rw [UInt32.le_iff_toNat_le]
        omega
    · have hrow := UInt32.not_le.mp hend
      rw [step_claim hat hrow]
      rw [UInt32.lt_iff_toNat_lt] at hrow
      have hcount : c.rowCount.toNat < 2 ^ 32 := c.rowCount.toNat_lt
      have hvalid : c.scanCursor ≠ invalidRowIndex := by
        intro heq
        rw [heq] at hrange
        exact absurd hrange (by decide)
      constructor
      · show (claimedRows (c.answers ++ [(w, c.scanCursor)])).map UInt32.toNat =
          List.range (min (c.scanCursor + 1).toNat c.rowCount.toNat)
        rw [claimedRows_append, if_neg hvalid, List.map_append, h.claimed, hnext,
          Nat.min_eq_left (by omega), Nat.min_eq_left (by omega), List.range_succ]
        rfl
      · exact h.ends.append fun heq => absurd heq hvalid
      · exact h.knows_update rfl rfl (fun hpassed => absurd hpassed hend) trivial
  | compareExchange total expected =>
    rw [hat] at hknown
    obtain ⟨rfl, -, hpassed⟩ := hknown
    by_cases heq : c.scanCursor = expected
    · rw [step_rewind hat heq]
      exact h.ret_end hpassed (UInt32.le_refl _)
    · rw [step_leave hat heq]
      exact h.ret_end hpassed hpassed

/-- **A run keeps the invariant**, when none of its steps makes the cursor wrap. -/
theorem Inv.foldl (schedule : List Worker) (h : Inv c)
    (hok : Accepts CursorInRange ScanClaims.step c schedule) :
    Inv (schedule.foldl ScanClaims.step c) := by
  induction schedule generalizing c with
  | nil => exact h
  | cons w schedule ih => exact ih (h.step hok.1) hok.2

end Invariant

/-! ## The steps of one worker -/

/-- The steps a worker has taken inside a call. -/
def cost : Pc → Nat
  | .idle => 0
  | .fetchAdd _ => 1
  | .compareExchange _ _ => 2

/-- The calls of a worker that have returned. -/
def returned (c : Config Worker) (w : Worker) : Nat := c.answers.countP fun answer => answer.1 = w

/-- A worker got its end answer, or took two steps for every row it was given. -/
def Paid (steps : Nat) (c : Config Worker) (w : Worker) : Prop :=
  (w, invalidRowIndex) ∈ c.answers ∨ steps = 2 * returned c w + cost (c.pc w)

section Progress
variable {c : Config Worker} {w v : Worker} {steps : Nat}

theorem returned_ret (row : UInt32) :
    returned (c.ret w row) v = returned c v + if v = w then 1 else 0 := by
  unfold returned Config.ret
  rw [List.countP_append, List.countP_singleton]
  by_cases hv : v = w
  · simp [hv]
  · simp [hv, Ne.symm hv]

/-- A step moves a worker on inside its call, or returns from it: with a row after
two steps, or with the end answer. -/
theorem step_cases (c : Config Worker) (w : Worker) :
    (∃ cursor pc, step c w = { c with scanCursor := cursor }.goto w pc ∧
      cost pc = cost (c.pc w) + 1) ∨
    ∃ cursor row, step c w = { c with scanCursor := cursor }.ret w row ∧
      (row = invalidRowIndex ∨ cost (c.pc w) = 1) := by
  cases hat : c.pc w with
  | idle => exact Or.inl ⟨_, _, step_idle hat, rfl⟩
  | fetchAdd total =>
    by_cases hend : total ≤ c.scanCursor
    · exact Or.inl ⟨_, _, step_overClaim hat hend, rfl⟩
    · exact Or.inr ⟨_, _, step_claim hat (UInt32.not_le.mp hend), Or.inr rfl⟩
  | compareExchange total expected =>
    by_cases heq : c.scanCursor = expected
    · exact Or.inr ⟨_, _, step_rewind hat heq, Or.inl rfl⟩
    · exact Or.inr ⟨_, _, step_leave hat heq, Or.inl rfl⟩

theorem Paid.step (h : Paid steps c v) (w : Worker) :
    Paid (steps + if w = v then 1 else 0) (step c w) v := by
  rcases step_cases c w with ⟨cursor, pc, heq, hcost⟩ | ⟨cursor, row, heq, hrow⟩
  · rw [heq]
    refine h.imp id fun hpaid => ?_
    by_cases hv : w = v
    · subst hv
      rw [if_pos rfl, hpaid]
      show _ = 2 * returned c w + cost (Function.update c.pc w pc w)
      rw [Function.update_self, hcost]
      omega
    · rw [if_neg hv, hpaid]
      show _ = 2 * returned c v + cost (Function.update c.pc w pc v)
      rw [Function.update_of_ne (Ne.symm hv), Nat.add_zero]
  · rw [heq]
    rcases h with h | hpaid
    · exact Or.inl (List.mem_append_left _ h)
    by_cases hv : w = v
    · subst hv
      rcases hrow with rfl | hone
      · exact Or.inl (List.mem_append_right _ (List.mem_singleton.mpr rfl))
      · right
        rw [returned_ret, if_pos rfl, hpaid, hone]
        show 2 * returned c w + 1 + 1 = 2 * (returned c w + 1) + cost (Function.update c.pc w .idle w)
        rw [Function.update_self]
        rfl
    · right
      rw [returned_ret, if_neg hv, if_neg (Ne.symm hv), hpaid]
      show _ = 2 * (returned c v + 0) + cost (Function.update c.pc w .idle v)
      rw [Function.update_of_ne (Ne.symm hv)]
      rfl

theorem Paid.foldl (schedule : List Worker) (h : Paid steps c v) :
    Paid (steps + schedule.count v) (schedule.foldl ScanClaims.step c) v := by
  induction schedule generalizing c steps with
  | nil => exact h
  | cons w schedule ih =>
    have hrest := ih (h.step w)
    rw [List.count_cons]
    rw [Nat.add_assoc, Nat.add_comm _ (List.count v schedule)] at hrest
    simpa using hrest

end Progress

/-- A worker without an end answer was given a row by every call that returned. -/
theorem returned_le {c : Config Worker} {w : Worker}
    (h : (w, invalidRowIndex) ∉ c.answers) : returned c w ≤ (claimedRows c.answers).length := by
  unfold returned claimedRows
  rw [← List.countP_eq_length_filter, List.countP_map]
  refine List.countP_mono_left fun answer hmem hw => ?_
  have hw' : answer.1 = w := of_decide_eq_true hw
  refine decide_eq_true fun heq => h ?_
  rw [← hw', ← heq]
  exact hmem

/-- The row count is fixed throughout a scan. -/
theorem run_rowCount (rowCount : UInt32) (schedule : List Worker) :
    (run rowCount schedule).rowCount = rowCount := by
  unfold run
  induction schedule using List.reverseRecOn with
  | nil => rfl
  | append_singleton schedule w ih =>
    rw [List.foldl_append, List.foldl_cons, List.foldl_nil]
    rcases step_cases (schedule.foldl step (start rowCount)) w with
      ⟨cursor, pc, heq, -⟩ | ⟨cursor, row, heq, -⟩
    · rw [heq]
      exact ih
    · rw [heq]
      exact ih

/-- **A scan hands out every row once.** As long as no step makes the cursor wrap,
the workers together are given every row once, in whatever order their steps come,
an end answer is only given when all rows have been handed out, and a worker that
keeps calling gets it. -/
theorem claim_scan_row_exact (rowCount : UInt32) (schedule : List Worker)
    (hok : Accepts CursorInRange step (start rowCount) schedule) :
    ClaimsRows rowCount (run rowCount schedule).answers ∧ AnswersEnd rowCount schedule := by
  have hinv : Inv (run rowCount schedule) := (Inv.start rowCount).foldl schedule hok
  have hrows := run_rowCount rowCount schedule
  constructor
  · have hclaims := hinv.claimsRows
    rw [hrows] at hclaims
    exact hclaims
  intro w hsteps
  by_contra hnone
  have hpaid : Paid (0 + schedule.count w) (run rowCount schedule) w :=
    Paid.foldl schedule (Or.inr rfl)
  have hreturned := returned_le hnone
  have hlength := congrArg List.length hinv.claimed
  rw [List.length_map, List.length_range, hrows] at hlength
  have hcost : cost ((run rowCount schedule).pc w) ≤ 2 := by
    cases (run rowCount schedule).pc w <;> simp [cost]
  have htaken := hpaid.resolve_left hnone
  omega

/-! ## Where the condition holds, and where it does not -/

/-- A step moves the cursor up by at most one. -/
theorem Inv.cursor_step {c : Config Worker} {w : Worker} (h : Inv c) :
    (ScanClaims.step c w).scanCursor.toNat ≤ c.scanCursor.toNat + 1 := by
  have hknown := h.knows w
  have hnext : (c.scanCursor + 1).toNat ≤ c.scanCursor.toNat + 1 := by
    rw [UInt32.toNat_add]
    exact Nat.mod_le _ _
  cases hat : c.pc w with
  | idle =>
    rw [step_idle hat]
    exact Nat.le_succ _
  | fetchAdd total =>
    by_cases hend : total ≤ c.scanCursor
    · rw [step_overClaim hat hend]
      exact hnext
    · rw [step_claim hat (UInt32.not_le.mp hend)]
      exact hnext
  | compareExchange total expected =>
    rw [hat] at hknown
    obtain ⟨rfl, -, hpassed⟩ := hknown
    by_cases heq : c.scanCursor = expected
    · rw [step_rewind hat heq]
      exact Nat.le_succ_of_le (UInt32.le_iff_toNat_le.mp hpassed)
    · rw [step_leave hat heq]
      exact Nat.le_succ _

/-- A run of fewer steps than the cursor has values left does not make it wrap. -/
theorem Inv.accepts {c : Config Worker} {schedule : List Worker} (h : Inv c)
    (hlength : c.scanCursor.toNat + schedule.length < 2 ^ 32) :
    Accepts CursorInRange ScanClaims.step c schedule := by
  induction schedule generalizing c with
  | nil => trivial
  | cons w schedule ih =>
    rw [List.length_cons] at hlength
    have hok : CursorInRange c w := fun _ _ => by omega
    refine ⟨hok, ih (h.step hok) ?_⟩
    have hcursor := h.cursor_step (w := w)
    omega

/-- Two workers share a row, and both call past the end. -/
theorem claim_scan_row_two_workers :
    Accepts CursorInRange step (start 1)
      [true, true, false, true, false, true, false, true, true, false] ∧
    ClaimsRows 1 (run 1
      [true, true, false, true, false, true, false, true, true, false]).answers ∧
    AnswersEnd 1 [true, true, false, true, false, true, false, true, true, false] :=
  have hok : Accepts CursorInRange step (start 1)
      [true, true, false, true, false, true, false, true, true, false] :=
    (Inv.start 1).accepts (by decide)
  ⟨hok, claim_scan_row_exact 1 _ hok⟩

/-- The worker that is about to rewind the cursor, one or the other in turn. -/
def rewinder (n : Nat) : Bool := n % 2 = 0

/-- Two workers that keep each other from rewinding: while one has claimed past the
end, the other claims past the end too, and only then does the first compare. -/
def overClaims : Nat → List Bool
  | 0 => [true, true, true, true]
  | n + 1 => overClaims n ++ [rewinder (n + 1), rewinder (n + 1), rewinder n]

/-- The cursor has been driven to a value, and the last worker has yet to rewind it. -/
structure Drifted (n : Nat) (c : Config Bool) : Prop where
  rowCount : c.rowCount = 1
  cursor : c.scanCursor = UInt32.ofNat (n + 2)
  rewinding : c.pc (rewinder n) = .compareExchange 1 (UInt32.ofNat (n + 2))
  other : c.pc (rewinder (n + 1)) = .idle
  row : 0 ∈ claimedRows c.answers

theorem rewinder_succ (n : Nat) : rewinder (n + 1) = !rewinder n := by
  unfold rewinder
  rcases Nat.mod_two_eq_zero_or_one n with h | h
  · simp [h, Nat.add_mod]
  · simp [h, Nat.add_mod]

/-- A whole claim past the end up to the rewinding. -/
theorem call_overClaim {c : Config Worker} {w : Worker} (hidle : c.pc w = .idle)
    (hend : c.rowCount ≤ c.scanCursor) :
    step (step c w) w = { c with
      scanCursor := c.scanCursor + 1
      pc := Function.update c.pc w (.compareExchange c.rowCount (c.scanCursor + 1)) } := by
  have hat : (c.goto w (.fetchAdd c.rowCount)).pc w = .fetchAdd c.rowCount :=
    Function.update_self _ _ _
  rw [step_idle hidle, step_overClaim hat hend]
  unfold Config.goto
  rw [Function.update_idem]

/-- A whole claim of a row. -/
theorem call_claim {c : Config Worker} {w : Worker} (hidle : c.pc w = .idle)
    (hrow : c.scanCursor < c.rowCount) :
    (step (step c w) w).answers = c.answers ++ [(w, c.scanCursor)] := by
  have hat : (c.goto w (.fetchAdd c.rowCount)).pc w = .fetchAdd c.rowCount :=
    Function.update_self _ _ _
  rw [step_idle hidle, step_claim hat hrow]
  rfl

/-- A round in which neither worker rewinds the cursor. -/
theorem Drifted.succ {n : Nat} {c : Config Bool} (h : Drifted n c) (hn : n + 2 < 2 ^ 32) :
    Drifted (n + 1) ([rewinder (n + 1), rewinder (n + 1), rewinder n].foldl step c) := by
  have hne : rewinder n ≠ rewinder (n + 1) := by
    rw [rewinder_succ]
    exact (Bool.not_ne_self _).symm
  have hlap : rewinder (n + 1 + 1) = rewinder n := by
    rw [rewinder_succ, rewinder_succ, Bool.not_not]
  have hnext : UInt32.ofNat (n + 2) + 1 = UInt32.ofNat (n + 1 + 2) := by
    rw [show n + 1 + 2 = n + 2 + 1 from rfl, UInt32.ofNat_add (n + 2) 1]
    rfl
  have hpast : c.rowCount ≤ c.scanCursor := by
    rw [h.rowCount, h.cursor, UInt32.le_iff_toNat_le, UInt32.toNat_ofNat_of_lt' hn]
    show 1 ≤ n + 2
    omega
  -- the other worker claims past the end, and the first finds the cursor moved
  rw [List.foldl_cons, List.foldl_cons, List.foldl_cons, List.foldl_nil,
    call_overClaim h.other hpast, h.rowCount, h.cursor, hnext]
  have hat : Function.update c.pc (rewinder (n + 1))
      (.compareExchange 1 (UInt32.ofNat (n + 1 + 2))) (rewinder n) =
      .compareExchange 1 (UInt32.ofNat (n + 2)) := by
    rw [Function.update_of_ne hne]
    exact h.rewinding
  have hmoved : UInt32.ofNat (n + 1 + 2) ≠ UInt32.ofNat (n + 2) := by
    rw [← hnext]
    intro heq
    have hone := congrArg (· - UInt32.ofNat (n + 2)) heq
    simp at hone
  rw [step_leave hat hmoved]
  refine ⟨rfl, rfl, ?_, ?_, ?_⟩
  · show Function.update (Function.update c.pc (rewinder (n + 1)) _) (rewinder n) .idle
      (rewinder (n + 1)) = _
    rw [Function.update_of_ne (Ne.symm hne), Function.update_self]
  · show Function.update (Function.update c.pc (rewinder (n + 1)) _) (rewinder n) .idle
      (rewinder (n + 1 + 1)) = _
    rw [hlap, Function.update_self]
  · show 0 ∈ claimedRows (c.answers ++ [(rewinder n, invalidRowIndex)])
    rw [claimedRows_append]
    exact List.mem_append_left _ h.row

theorem drifted_overClaims (n : Nat) (hn : n + 2 ≤ 2 ^ 32) : Drifted n (run 1 (overClaims n)) := by
  induction n with
  | zero => refine ⟨?_, ?_, ?_, ?_, ?_⟩ <;> decide
  | succ n ih =>
    unfold run overClaims
    rw [List.foldl_append]
    exact (ih (by omega)).succ (by omega)

/-- After `2 ^ 32` claims past the end the row is handed out a second time. -/
theorem not_claims_rows :
    ¬ ClaimsRows 1 (run 1 (overClaims (2 ^ 32 - 2) ++ [false, false])).answers := by
  have hdrift := drifted_overClaims (2 ^ 32 - 2) (by omega)
  unfold run at hdrift ⊢
  rw [List.foldl_append]
  generalize (overClaims (2 ^ 32 - 2)).foldl step (start 1) = c at hdrift ⊢
  have hcursor : c.scanCursor = 0 := by
    rw [hdrift.cursor]
    rfl
  have hrow : c.scanCursor < c.rowCount := by
    rw [hcursor, hdrift.rowCount]
    decide
  have hidle : c.pc false = .idle := by
    rw [← show rewinder (2 ^ 32 - 2 + 1) = false by decide]
    exact hdrift.other
  intro h
  have honce := h.once
  rw [List.foldl_cons, List.foldl_cons, List.foldl_nil] at honce
  rw [call_claim hidle hrow, claimedRows_append, hcursor, if_neg (by decide)] at honce
  exact List.disjoint_of_nodup_append honce hdrift.row (List.mem_singleton.mpr rfl)

end ScanClaims
end PgYaap
