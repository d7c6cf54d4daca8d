import Mathlib

/-! # Row numbers within groups

A list of rows numbered within the groups of a key, in the order of the list, and the LIMIT
and OFFSET of a list. When the rows of a predicate are the first rows of one group, their
numbers are their places among themselves. -/
namespace PgYaap
namespace RankedRows

variable {Row Key : Type} [DecidableEq Key]

/-! ## LIMIT and OFFSET -/

/-- LIMIT `count` OFFSET `offset`: `none` for NULL and for a clause that is missing, and no
result at all for a negative number. -/
def limitRows (count offset : Option Int) (rows : List Row) : Option (List Row) :=
  if (∃ n ∈ count, n < 0) ∨ ∃ n ∈ offset, n < 0 then none
  else
    let rest := rows.drop (offset.getD 0).toNat
    some (count.elim rest fun n => rest.take n.toNat)

theorem limitRows_of_nonneg {count offset : Option Int} (hcount : ∀ n ∈ count, 0 ≤ n)
    (hoffset : ∀ n ∈ offset, 0 ≤ n) (rows : List Row) :
    limitRows count offset rows = some (count.elim (rows.drop (offset.getD 0).toNat) fun n =>
      (rows.drop (offset.getD 0).toNat).take n.toNat) := by
  rw [limitRows, if_neg]
  rintro (⟨n, hn, hneg⟩ | ⟨n, hn, hneg⟩)
  · exact absurd (hcount n hn) (not_le.2 hneg)
  · exact absurd (hoffset n hn) (not_le.2 hneg)

/-- The place `rank`, counted from one, is within the LIMIT and the OFFSET. -/
def WithinLimit (count offset : Option Int) (rank : Nat) : Prop :=
  offset.getD 0 < rank ∧ ∀ n ∈ count, (rank : Int) ≤ n + offset.getD 0

instance (count offset : Option Int) (rank : Nat) : Decidable (WithinLimit count offset rank) :=
  inferInstanceAs (Decidable (_ ∧ _))

theorem filter_zipIdx_lt (rows : List Row) (start bound : Nat) :
    ((rows.zipIdx start).filter fun x => bound < x.2).map Prod.fst =
      rows.drop (bound + 1 - start) := by
  induction rows generalizing start with
  | nil => rw [List.drop_nil]; rfl
  | cons row rows ih =>
    rw [List.zipIdx_cons]
    by_cases h : bound < start
    · rw [List.filter_cons_of_pos (by simpa using h), List.map_cons, ih,
        show bound + 1 - start = 0 by omega, show bound + 1 - (start + 1) = 0 by omega,
        List.drop_zero, List.drop_zero]
    · rw [List.filter_cons_of_neg (by simpa using h), ih,
        show bound + 1 - start = bound + 1 - (start + 1) + 1 by omega, List.drop_succ_cons]

theorem filter_zipIdx_le (rows : List Row) (start bound : Nat) :
    (rows.zipIdx start).filter (fun x => x.2 ≤ bound) =
      (rows.take (bound + 1 - start)).zipIdx start := by
  induction rows generalizing start with
  | nil => rw [List.take_nil]; rfl
  | cons row rows ih =>
    rw [List.zipIdx_cons]
    by_cases h : start ≤ bound
    · rw [List.filter_cons_of_pos (by simpa using h), ih,
        show bound + 1 - start = bound + 1 - (start + 1) + 1 by omega, List.take_succ_cons,
        List.zipIdx_cons]
    · rw [List.filter_cons_of_neg (by simpa using h), ih,
        show bound + 1 - start = 0 by omega, show bound + 1 - (start + 1) = 0 by omega,
        List.take_zero, List.take_zero]
      rfl

/-- The rows at the places within the bounds are the rows LIMIT and OFFSET leave. -/
theorem map_filter_withinLimit {count offset : Option Int} (hcount : ∀ n ∈ count, 0 ≤ n)
    (hoffset : ∀ n ∈ offset, 0 ≤ n) (rows : List Row) :
    some (((rows.zipIdx 1).filter fun x => WithinLimit count offset x.2).map Prod.fst) =
      limitRows count offset rows := by
  have hskip : 0 ≤ offset.getD 0 := by
    cases offset with
    | none => exact le_rfl
    | some m => exact hoffset m rfl
  rw [limitRows_of_nonneg hcount hoffset]
  obtain ⟨m, hm⟩ := Int.eq_ofNat_of_zero_le hskip
  refine congrArg some ?_
  cases count with
  | none =>
    have hkept : (fun x : Row × Nat => decide (WithinLimit none offset x.2)) =
        fun x => decide (m < x.2) :=
      funext fun x => decide_eq_decide.2 (by simp [WithinLimit, hm])
    rw [hkept, filter_zipIdx_lt, hm]
    rfl
  | some n =>
    obtain ⟨k, rfl⟩ := Int.eq_ofNat_of_zero_le (hcount n rfl)
    have hkept : (fun x : Row × Nat => decide (WithinLimit (some (k : Int)) offset x.2)) =
        fun x => decide (m < x.2) && decide (x.2 ≤ k + m) := by
      funext x
      rw [← Bool.decide_and]
      apply decide_eq_decide.2
      simp only [WithinLimit, hm, Option.mem_some_iff, forall_eq']
      omega
    rw [hkept, ← List.filter_filter, filter_zipIdx_le, filter_zipIdx_lt, hm]
    simp only [Option.elim_some, Int.toNat_natCast, Nat.add_sub_cancel]
    rw [List.take_drop, Nat.add_comm m k]

/-- How many of `n` rows LIMIT and OFFSET leave. -/
def limitLength (count offset : Option Int) (n : Nat) : Nat :=
  count.elim (n - (offset.getD 0).toNat) fun k => min k.toNat (n - (offset.getD 0).toNat)

theorem length_limitRows {count offset : Option Int} {rows result : List Row}
    (h : limitRows count offset rows = some result) :
    result.length = limitLength count offset rows.length := by
  rw [limitRows] at h
  by_cases hneg : (∃ n ∈ count, n < 0) ∨ ∃ n ∈ offset, n < 0
  · exact absurd ((if_pos hneg).symm.trans h) nofun
  · obtain rfl := Option.some.inj ((if_neg hneg).symm.trans h)
    cases count with
    | none => exact List.length_drop
    | some k => rw [Option.elim_some, List.length_take, List.length_drop]; rfl

theorem nonneg_of_limitRows {count offset : Option Int} {rows result : List Row}
    (h : limitRows count offset rows = some result) :
    (∀ n ∈ count, 0 ≤ n) ∧ ∀ n ∈ offset, 0 ≤ n := by
  rw [limitRows] at h
  by_cases hneg : (∃ n ∈ count, n < 0) ∨ ∃ n ∈ offset, n < 0
  · exact absurd ((if_pos hneg).symm.trans h) nofun
  · rw [not_or] at hneg
    exact ⟨fun n hn => not_lt.1 fun hlt => hneg.1 ⟨n, hn, hlt⟩,
      fun n hn => not_lt.1 fun hlt => hneg.2 ⟨n, hn, hlt⟩⟩

theorem countP_range'_lt (start n bound : Nat) :
    (List.range' start n).countP (fun i => bound < i) = start + n - max start (bound + 1) := by
  induction n generalizing start with
  | zero => rw [List.range'_zero, List.countP_nil]; omega
  | succ n ih =>
    rw [List.range'_succ, List.countP_cons, ih]
    simp only [decide_eq_true_eq]
    split <;> omega

theorem countP_range'_between (start n bound top : Nat) :
    (List.range' start n).countP (fun i => bound < i ∧ i ≤ top) =
      min (start + n) (top + 1) - max start (bound + 1) := by
  induction n generalizing start with
  | zero => rw [List.range'_zero, List.countP_nil]; omega
  | succ n ih =>
    rw [List.range'_succ, List.countP_cons, ih]
    simp only [decide_eq_true_eq]
    split <;> omega

/-- How many of the places from `start` on are within LIMIT and OFFSET. -/
theorem countP_withinLimit {count offset : Option Int} (hcount : ∀ n ∈ count, 0 ≤ n)
    (hoffset : 0 ≤ offset.getD 0) (start n : Nat) :
    (List.range' start n).countP (fun i => WithinLimit count offset i) =
      (count.elim (start + n) fun k =>
        min (start + n) (k.toNat + (offset.getD 0).toNat + 1)) -
        max start ((offset.getD 0).toNat + 1) := by
  obtain ⟨m, hm⟩ := Int.eq_ofNat_of_zero_le hoffset
  cases count with
  | none =>
    have hkept : (fun i => decide (WithinLimit none offset i)) = fun i => decide (m < i) :=
      funext fun i => decide_eq_decide.2 (by simp [WithinLimit, hm])
    rw [hkept, countP_range'_lt, hm]
    rfl
  | some k =>
    obtain ⟨k, rfl⟩ := Int.eq_ofNat_of_zero_le (hcount k rfl)
    have hkept : (fun i => decide (WithinLimit (some (k : Int)) offset i)) =
        fun i => decide (m < i ∧ i ≤ k + m) := by
      funext i
      apply decide_eq_decide.2
      simp only [WithinLimit, hm, Option.mem_some_iff, forall_eq']
      omega
    rw [hkept, countP_range'_between, hm]
    rfl

/-! ## Numbers within groups -/

variable (key : Row → Key)

/-- The rows with their numbers within their groups, after the rows `before`. -/
def rankFrom (before : List Row) : List Row → List (Row × Nat)
  | [] => []
  | row :: rows =>
    (row, before.countP (fun r => key r = key row) + 1) :: rankFrom (before ++ [row]) rows

/-- `row_number()` over the groups of `key`, for rows in the order of the window. -/
def ranked (rows : List Row) : List (Row × Nat) := rankFrom key [] rows

theorem rankFrom_append (before rows rows' : List Row) :
    rankFrom key before (rows ++ rows') =
      rankFrom key before rows ++ rankFrom key (before ++ rows) rows' := by
  induction rows generalizing before with
  | nil => rw [List.append_nil]; rfl
  | cons row rows ih =>
    rw [List.cons_append, rankFrom, rankFrom, ih, List.append_assoc]
    rfl

theorem map_fst_rankFrom (before rows : List Row) :
    (rankFrom key before rows).map Prod.fst = rows := by
  induction rows generalizing before with
  | nil => rfl
  | cons row rows ih => rw [rankFrom, List.map_cons, ih]

/-- Copies of one row get consecutive numbers. -/
theorem map_snd_rankFrom_replicate (before : List Row) (row : Row) (n : Nat) :
    (rankFrom key before (List.replicate n row)).map Prod.snd =
      List.range' (before.countP (fun r => key r = key row) + 1) n := by
  induction n generalizing before with
  | zero => rfl
  | succ n ih =>
    rw [List.replicate_succ, rankFrom, List.map_cons, ih, List.range'_succ, List.countP_append,
      List.countP_singleton, if_pos (by simp)]

variable {key}

theorem pos_of_mem_rankFrom {before rows : List Row} {x : Row × Nat}
    (hx : x ∈ rankFrom key before rows) : 0 < x.2 := by
  induction rows generalizing before with
  | nil => exact absurd hx List.not_mem_nil
  | cons row rows ih =>
    rcases List.mem_cons.1 hx with rfl | hx
    · exact Nat.succ_pos _
    · exact ih hx

/-- The kept numbers among copies of one row. -/
theorem countP_rankFrom_replicate (P : Row → Prop) (W : Nat → Prop) [DecidablePred P]
    [DecidablePred W] (before : List Row) (row : Row) (n : Nat) :
    (rankFrom key before (List.replicate n row)).countP (fun x => P x.1 ∧ W x.2) =
      if P row then
        (List.range' (before.countP (fun r => key r = key row) + 1) n).countP (fun i => W i)
      else 0 := by
  have hrow : ∀ x ∈ rankFrom key before (List.replicate n row), x.1 = row := by
    intro x hx
    have hmem := List.mem_map_of_mem (f := Prod.fst) hx
    rw [map_fst_rankFrom] at hmem
    exact List.eq_of_mem_replicate hmem
  by_cases hP : P row
  · rw [if_pos hP, ← map_snd_rankFrom_replicate, List.countP_map]
    apply List.countP_congr
    intro x hx
    simp [hrow x hx, hP]
  · rw [if_neg hP, List.countP_eq_zero]
    intro x hx
    simp [hrow x hx, hP]

/-! ## The first rows of a group -/

/-- The rows of `P` are the first rows of one group, in the order `precedes`. -/
def FirstOfGroup {Row Key : Type} (key : Row → Key) (precedes : Row → Row → Prop)
    (P : Row → Prop) : Prop :=
  ∀ row row', P row' →
    (P row → key row = key row') ∧ (key row = key row' → precedes row row' → P row)

variable {precedes : Row → Row → Prop} {P : Row → Prop} [DecidablePred P]

/-- **Places.** The numbers of the rows of `P` count the rows of `P`. -/
theorem filter_rankFrom (hfirst : FirstOfGroup key precedes P) {before rows : List Row}
    (hsorted : (before ++ rows).Pairwise precedes) :
    (rankFrom key before rows).filter (fun x => P x.1) =
      (rows.filter fun row => P row).zipIdx (before.countP (fun row => P row) + 1) := by
  induction rows generalizing before with
  | nil => rfl
  | cons row rows ih =>
    have hrest : ((before ++ [row]) ++ rows).Pairwise precedes := by
      rw [List.append_assoc]
      exact hsorted
    have hih := ih hrest
    rw [rankFrom]
    by_cases hrow : P row
    · -- the rows of the group before `row` are those of `P`
      have hcount : before.countP (fun r => key r = key row) =
          before.countP (fun r => P r) := by
        apply List.countP_congr
        intro r hr
        have hprecedes : precedes r row :=
          (List.pairwise_append.1 hsorted).2.2 r hr row List.mem_cons_self
        rw [decide_eq_true_iff, decide_eq_true_iff]
        exact ⟨fun hkey => (hfirst r row hrow).2 hkey hprecedes, (hfirst r row hrow).1⟩
      rw [List.filter_cons_of_pos (by simpa using hrow), hih,
        List.filter_cons_of_pos (by simpa using hrow), List.zipIdx_cons, hcount,
        List.countP_append, List.countP_singleton, if_pos (by simpa using hrow)]
    · rw [List.filter_cons_of_neg (by simpa using hrow), hih,
        List.filter_cons_of_neg (by simpa using hrow), List.countP_append,
        List.countP_singleton, if_neg (by simpa using hrow), Nat.add_zero]

/-- A bound on the numbers is LIMIT and OFFSET on the rows of `P`. -/
theorem map_filter_ranked (hfirst : FirstOfGroup key precedes P) {rows : List Row}
    (hsorted : rows.Pairwise precedes) {count offset : Option Int}
    (hcount : ∀ n ∈ count, 0 ≤ n) (hoffset : ∀ n ∈ offset, 0 ≤ n) :
    some ((((ranked key rows).filter fun x => WithinLimit count offset x.2).filter
        fun x => P x.1).map Prod.fst) =
      limitRows count offset (rows.filter fun row => P row) := by
  have hnumbers := filter_rankFrom hfirst (List.nil_append rows ▸ hsorted)
  rw [← map_filter_withinLimit hcount hoffset, List.filter_comm, ranked, hnumbers]
  rfl

/-- The kept rows of `P` among copies of one row and copies of another. -/
theorem countP_ranked_replicate (W : Nat → Prop) [DecidablePred W] (row row' : Row)
    (n n' : Nat) :
    (ranked key (List.replicate n row ++ List.replicate n' row')).countP
        (fun x => P x.1 ∧ W x.2) =
      (if P row then (List.range' 1 n).countP (fun i => W i) else 0) +
        if P row' then
          (List.range' ((if key row = key row' then n else 0) + 1) n').countP (fun i => W i)
        else 0 := by
  rw [ranked, rankFrom_append, List.countP_append, countP_rankFrom_replicate,
    countP_rankFrom_replicate, List.nil_append, List.countP_replicate]
  simp only [List.countP_nil, decide_eq_true_eq]

theorem pairwise_replicate_append (htotal : ∀ row row', precedes row row' ∨ precedes row' row)
    {row row' : Row} (h : precedes row row') (n n' : Nat) :
    (List.replicate n row ++ List.replicate n' row').Pairwise precedes := by
  rw [List.pairwise_append]
  refine ⟨List.pairwise_replicate.2 (Or.inr ((htotal row row).elim id id)),
    List.pairwise_replicate.2 (Or.inr ((htotal row' row').elim id id)), ?_⟩
  intro r hr r' hr'
  rw [List.eq_of_mem_replicate hr, List.eq_of_mem_replicate hr']
  exact h

/-- **Only then.** When on every list a bound on the numbers leaves as many rows of `P` as
LIMIT and OFFSET, and LIMIT and OFFSET are no empty condition, the rows of `P` are the first
rows of one group. -/
theorem firstOfGroup_of_lengths
    (htotal : ∀ row row', precedes row row' ∨ precedes row' row) {count offset : Option Int}
    (hcount : ∀ n ∈ count, 0 < n) (hoffset : 0 ≤ offset.getD 0)
    (hbounds : count = none → offset.getD 0 ≠ 0)
    (hlengths : ∀ rows : List Row, rows.Pairwise precedes →
      (ranked key rows).countP (fun x => P x.1 ∧ WithinLimit count offset x.2) =
        limitLength count offset (rows.countP fun row => P row)) :
    FirstOfGroup key precedes P := by
  have hcount' : ∀ n ∈ count, 0 ≤ n := fun n hn => (hcount n hn).le
  obtain ⟨m, hm⟩ := Int.eq_ofNat_of_zero_le hoffset
  have hlengths' : ∀ (row row' : Row) (n n' : Nat), precedes row row' →
      (if P row then (count.elim (1 + n) fun k => min (1 + n) (k.toNat + m + 1)) - (m + 1)
        else 0) +
        (if P row' then
          (count.elim ((if key row = key row' then n else 0) + 1 + n') fun k =>
            min ((if key row = key row' then n else 0) + 1 + n') (k.toNat + m + 1)) -
            max ((if key row = key row' then n else 0) + 1) (m + 1)
        else 0) =
      limitLength count offset ((if P row then n else 0) + if P row' then n' else 0) := by
    intro row row' n n' hprecedes
    have h := hlengths _ (pairwise_replicate_append htotal hprecedes n n')
    rw [countP_ranked_replicate, countP_withinLimit hcount' hoffset,
      countP_withinLimit hcount' hoffset, hm, Int.toNat_natCast,
      List.countP_append, List.countP_replicate, List.countP_replicate] at h
    simpa only [decide_eq_true_eq, show max 1 (m + 1) = m + 1 by omega] using h
  -- copies of two rows of different groups, enough of each to pass the OFFSET alone
  have hgroups : ∀ row row', precedes row row' → P row → P row' → key row = key row' := by
    intro row row' hprecedes hP hP'
    by_contra hkey
    cases count with
    | none =>
      have h := hlengths' row row' m m hprecedes
      have hne := hbounds rfl
      simp only [if_pos hP, if_pos hP', if_neg hkey, limitLength, Option.elim_none, hm] at h hne
      omega
    | some k =>
      have h := hlengths' row row' (m + k.toNat) (m + k.toNat) hprecedes
      have hpos := hcount k rfl
      simp only [if_pos hP, if_pos hP', if_neg hkey, limitLength, Option.elim_some, hm] at h
      omega
  intro row row' hP'
  refine ⟨fun hP => ?_, fun hkey hprecedes => ?_⟩
  · rcases htotal row row' with h | h
    · exact hgroups row row' h hP hP'
    · exact (hgroups row' row h hP' hP).symm
  · -- rows of the group that come first take the numbers of the rows of `P`
    by_contra hP
    rcases Nat.eq_zero_or_pos m with rfl | hpos
    · cases count with
      | none => exact hbounds rfl hm
      | some k =>
        have h := hlengths' row row' k.toNat 1 hprecedes
        have hk := hcount k rfl
        simp only [if_neg hP, if_pos hP', if_pos hkey, limitLength, Option.elim_some, hm] at h
        omega
    · have h := hlengths' row row' 1 m hprecedes
      cases count with
      | none =>
        simp only [if_neg hP, if_pos hP', if_pos hkey, limitLength, Option.elim_none, hm] at h
        omega
      | some k =>
        have hk := hcount k rfl
        simp only [if_neg hP, if_pos hP', if_pos hkey, limitLength, Option.elim_some, hm] at h
        omega

end RankedRows
end PgYaap
